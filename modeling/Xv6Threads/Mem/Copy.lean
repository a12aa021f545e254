import Xv6Threads.Mem.Growproc
import Xv6Threads.Vm.Image

/-! `freevm` gives everything back, `setupkvm` makes the mappings of the kernel, and `copyuvm` a copy of a process that
shares no page with it, or nothing. -/
namespace Xv6Threads.Mem
open Nat Function List Option UInt32
open Vm (pgSize kernBase word pgRoundUp pgRoundDown pdx ptx pgAddr Panic Kmap kmap devSpace phystop npages lt_npages
  npages_le npages_mono next_page pgRoundUp_page Ordered kmap_ordered)

section
variable {page hand : Option ℕ} {D : Dir} {m : Memory} {all S : ℕ → Prop}

lemma freeTabs_spec (hS : ∀ i t, D i = some t → S t.page) {is : List (Fin 1024)} (hnd : is.Nodup) {E : Dir}
    (K : Kept page E hand m all) (hn : ∀ w < 2^19, ent E w = none) (hED : ∀ i ∈ is, E i = D i) :
    ∃ m', freeTabs D is m = .ok m' ∧ Kept page (fun i => if i ∈ is then none else E i) hand m' all ∧
      Changed S m m' := by
  induction is generalizing E m with
  | nil => exact ⟨m,rfl,by simpa using K,.refl m⟩
  | cons i is ih =>
    obtain ⟨hi,hnd⟩ := nodup_cons.mp hnd
    cases ht : D i with
    | none =>
      obtain ⟨m',hr,hK,hC⟩ := ih hnd K hn fun j hj => hED j (mem_cons_of_mem i hj)
      refine ⟨m',by simp only [freeTabs,ht,hr],?_,hC⟩
      convert hK using 2 with j
      by_cases hj : j = i
      · simp [hj,hED i mem_cons_self,ht]
      · simp [hj]
    | some t =>
      have hE : E i = some t := (hED i mem_cons_self).trans ht
      have hval := K.valid_own (p := .tab i) (f := t.page) (by simp only [own,hE,map_some])
      obtain ⟨m',hr,hK,hC⟩ := ih hnd (K.untable hE hn) (fun w hw => by
          by_cases hd : di w = i
          · exact ent_of_none (by rw [hd,update_self])
          · rw [← hn w hw]
            unfold ent
            rw [update_of_ne hd]) (fun j hj => by
          rw [update_of_ne (by rintro rfl; exact hi hj)]
          exact hED j (mem_cons_of_mem i hj))
      refine ⟨m',by simp only [freeTabs,ht,kfree_valid hval,Except.bind,hr],?_,.trans (.give (hS i t ht)) hC⟩
      convert hK using 2 with j
      by_cases hj : j = i
      · simp [hj]
      · simp [hj]

/-- `freevm` gives every page of a directory back. -/
lemma freevm_spec {page : ℕ} (K : Kept (some page) D none m all)
    (hS : ∀ p f, own (some page) D none p = some f → S f) :
    ∃ m', freevm page D m = .ok m' ∧ Kept none noTabs none m' all ∧ Changed S m m' := by
  have h0 : npages 0 = 0 := rfl
  have h19 : npages kernBase = 2^19 := by decide
  obtain ⟨E,m1,hr,hfr⟩ := deallocuvm_spec (S := S) K (le_refl kernBase) 0 (fun w e _ hw he => by
    refine hS (.user w) e.addr ?_
    simp only [own,if_pos (by omega : w < 2^19),he,map_some])
  rw [h0,h19] at hfr
  obtain ⟨m2,hr2,hK2,hC2⟩ := freeTabs_spec (D := E) (S := S) (fun i t ht => by
      refine hS (.tab i) t.page ?_
      simp only [own,← hfr.pages,ht,map_some]) (nodup_finRange 1024) hfr.kept (fun w hw => by
      rw [hfr.shrunk,if_pos ⟨zero_le w,hw⟩]) fun _ _ => rfl
  have hpage := hK2.valid_own (p := .dir) rfl
  refine ⟨m2.give page,?_,?_,(hfr.changed.trans hC2).trans (.give (hS .dir page rfl))⟩
  · simp only [freevm,if_neg hpage.pos,hr,bind,Except.bind,hr2,kfree_valid hpage]
  · have hnone : (fun i => if i ∈ finRange 1024 then none else E i) = noTabs := by
      funext i
      simp [noTabs]
    rw [hnone] at hK2
    exact hK2.undir

end

/-- The entry of page `w` that the mappings `ks` ask for. -/
def kent (ks : List Kmap) (w : ℕ) : Option Pte :=
  (ks.find? fun k => decide (k.virt ≤ 4096*w ∧ 4096*w < k.virt+k.size)).map
    fun k => ⟨(k.physStart+(4096*w-k.virt))%word,kflags k⟩

/-- `D` has the mappings `ks`, and tables only for them. -/
structure Kernel (ks : List Kmap) (D : Dir) : Prop where
  ents : ∀ w, ent D w = kent ks w
  tabs : ∀ i, (∀ w, ent D w ≠ none → i ≠ di w) → D i = none

section
variable {D : Dir} {m : Memory} {all : ℕ → Prop} {w : ℕ}

lemma kent_kernel {e : Pte} (h : kent kmap w = some e) : 2^19 ≤ w ∧ w < 2^20 ∧ e.flags.u = false := by
  obtain ⟨k,hk,rfl⟩ := map_eq_some_iff.mp h
  have hin : ∀ k ∈ kmap, kernBase ≤ k.virt ∧ k.virt+k.size ≤ word ∧ (kflags k).u = false := by decide
  obtain ⟨h1,h2,h3⟩ := hin k (mem_of_find?_eq_some hk)
  have h4 := find?_some hk
  simp only [decide_eq_true_eq] at h4
  unfold kernBase at h1
  unfold word at h2
  exact ⟨by omega,by omega,h3⟩

lemma kent_gap (h1 : 0x8e000 ≤ w) (h2 : w < 0xfe000) : kent kmap w = none := by
  refine map_eq_none_iff.mpr (find?_eq_none.mpr fun k hk => ?_)
  have hin : ∀ k ∈ kmap, k.virt+k.size ≤ 4096*0x8e000 ∨ 4096*0xfe000 ≤ k.virt := by decide
  have := hin k hk
  simp only [decide_eq_true_eq]
  omega

lemma Kernel.user (h : Kernel kmap D) (hw : w < 2^19) : ent D w = none := by
  rw [h.ents]
  cases he : kent kmap w with
  | none => rfl
  | some e =>
    have := (kent_kernel he).1
    omega

lemma Kernel.snoc {E : Dir} {done : List Kmap} {k : Kmap} {u n : ℕ} (h : Kernel done D) (hu : k.virt = 4096*u)
    (hn : k.size = 4096*(n+1)) (hD : ∀ w, u ≤ w → ent D w = none) (hR : Ranged D E u (n+1) k.physStart (kflags k))
    (hE : ∀ i, (∀ w, u ≤ w → w ≤ u+n → i ≠ di w) → E i = D i) : Kernel (done ++ [k]) E := by
  refine ⟨fun w => ?_,fun i hi => ?_⟩
  · rw [hR]
    unfold kent
    rw [find?_append,find?_singleton,hu,hn]
    have hd := h.ents w
    unfold kent at hd
    by_cases hc : u ≤ w ∧ w < u+(n+1)
    · rw [hD w hc.1] at hd
      rw [if_pos hc,map_eq_none_iff.mp hd.symm,none_or,if_pos
        (by simp only [decide_eq_true_eq]; omega),map_some,hu,← Nat.mul_sub]
    · rw [if_neg hc,hd,if_neg (by simp only [decide_eq_true_eq]; omega),or_none]
  · rw [hE i fun w h1 h2 => hi w ?_]
    · refine h.tabs i fun w hw => hi w ?_
      rw [hR]
      split_ifs with hc
      · exact nofun
      · exact hw
    · rw [hR,if_pos (by omega)]
      exact nofun

/-- What `setupkvm` returns: a directory with the mappings of the kernel, or nothing of what it took. -/
def KvmResult (all : ℕ → Prop) (m : Memory) : Option (ℕ × Dir) × Memory → Prop
  | (none,m') => Kept none noTabs none m' all ∧ Changed all m m' ∧ (m.Willing → Scarce all 0)
  | (some (page,E),m') => Kept (some page) E none m' all ∧ Took m m' ∧ Kernel kmap E

lemma kmapBody_spec {page v : ℕ} {done : List Kmap} {k : Kmap} {ks : List Kmap} {m1 : Memory}
    (K : Kept (some page) D none m1 all) (hT : Took m m1) (hk : Kernel done D) (ho : Ordered (k :: ks) v)
    (hv : 2^19 ≤ v) (hp : k.physStart < word) (hD : ∀ w, v ≤ w ∨ w < 2^19 → ent D w = none) :
    (∃ E m2 v', kmapBody page (k :: ks,D,m1) = .ok (.inl (ks,E,m2)) ∧ Kept (some page) E none m2 all ∧ Took m m2 ∧
      Kernel (done ++ [k]) E ∧ Ordered ks v' ∧ 2^19 ≤ v' ∧ ∀ w, v' ≤ w ∨ w < 2^19 → ent E w = none) ∨
    ∃ m2, kmapBody page (k :: ks,D,m1) = .ok (.inr (none,m2)) ∧ KvmResult all m (none,m2) := by
  obtain ⟨u,n,hu,hn,hvu,hun,hks⟩ := ho
  obtain ⟨b,E,m2,hr,hK,hT2,hlow,ht,hf⟩ := mappages_range K hun (by omega) (fun i _ => hD (u+i) (by omega)) hp (kflags k)
  rw [kmapBody,hu,hn,hr]
  cases b with
  | true =>
    obtain ⟨hR,hE⟩ := ht rfl
    refine .inl ⟨E,m2,u+n+1,rfl,hK,hT.trans hT2,hk.snoc hu hn (fun w hw => hD w (by omega)) hR hE,hks,by omega,
      fun w hw => ?_⟩
    rw [hR,if_neg (by omega)]
    exact hD w (by omega)
  | false =>
    obtain ⟨m3,hr3,hK3,hC3⟩ := freevm_spec (S := all) hK fun p f h => hK.own_all h
    refine .inr ⟨m3,by simp only [kmapNext,hr3,Except.map],hK3,((hT.trans hT2).widen).trans hC3,
      fun hw => hf rfl (hT.deny hw) 0 fun w _ h => hD w (.inr h)⟩

/-- `setupkvm` does not panic. -/
lemma setupkvm_spec (K : Kept none noTabs none m all) : ∃ r, setupkvm m = .ok r ∧ KvmResult all m r := by
  unfold setupkvm
  rcases kalloc_cases m with ⟨m1,hal,hf,hT,hbad⟩ | ⟨page,fs,m1,hal,hm,hf,hT⟩
  · rw [hal]
    exact ⟨_,rfl,K.congr hf fun _ => rfl,hT.widen, fun hw => K.scarce (hbad hw) fun w _ _ => ent_noTabs w⟩
  · rw [hal]
    simp only [if_neg (by decide : ¬devSpace < phystop+kernBase)]
    have hphys : ∀ k ∈ kmap, k.physStart < word := by decide
    refine rounds_spec (I := fun s => ∃ done v, done ++ s.1 = kmap ∧ Kept (some page) s.2.1 none s.2.2 all ∧
        Took m s.2.2 ∧ Kernel done s.2.1 ∧ Ordered s.1 v ∧ 2^19 ≤ v ∧ ∀ w, v ≤ w ∨ w < 2^19 → ent s.2.1 w = none)
      (fun s => s.1.length) ?_ (s := (kmap,fun _ => none,m1)) (k := kmap.length+1)
      ⟨[],2^19,rfl,(K.grab hm hf).newDir,hT,⟨fun w => ent_noTabs w,fun _ _ => rfl⟩,kmap_ordered,le_rfl,
        fun w _ => ent_noTabs w⟩ (lt_succ_self _)
    rintro ⟨ks,E,m2⟩ ⟨done,v,hdone,hK,hT2,hk,ho,hv,hE⟩
    cases ks with
    | nil =>
      rw [append_nil] at hdone
      exact .inr ⟨_,rfl,hK,hT2,hdone ▸ hk⟩
    | cons k ks =>
      have hmem : k ∈ kmap := by
        rw [← hdone]
        simp
      rcases kmapBody_spec hK hT2 hk ho hv (hphys k hmem) hE with
        ⟨F,m3,v',hr,hK3,hT3,hk3,ho3,hv3,hF⟩ | ⟨m3,hr,hres⟩
      · exact .inl ⟨_,hr,⟨done ++ [k],v',by simpa using hdone,hK3,hT3,hk3,ho3,hv3,hF⟩,lt_succ_self _⟩
      · exact .inr ⟨_,hr,hres⟩

end

/-- The user writes `b` at `a`, if the page is there and is the user's to write. -/
def store (D : Dir) (a : ℕ) (b : UInt8) (m : Memory) : Memory :=
  match ent D (a/4096) with
  | none => m
  | some e => if e.flags.w ∧ e.flags.u then m.put e.addr (update (m.page e.addr) (a%4096) b) else m

lemma load_store {D E : Dir} {m : Memory} {a a' : ℕ} (b : UInt8)
    (h : ∀ e e', ent D (a'/4096) = some e → ent E (a/4096) = some e' → e.addr ≠ e'.addr) :
    load D (store E a b m) a' = load D m a' := by
  unfold store
  cases hE : ent E (a/4096) with
  | none => rfl
  | some e' =>
    simp only
    split_ifs with hw
    · exact load_congr rfl fun e he => update_of_ne (h e e' he hE) ..
    · rfl

lemma Scarce.mono {all : ℕ → Prop} {a b : ℕ} (h : Scarce all a) (hab : a ≤ b) : Scarce all b := fun l hl hall => by
  have := h l hl hall
  omega

/-- `copyuvm` has copied the pages before `u` into `E`, which had the mappings of `F`. -/
structure Copied (all : ℕ → Prop) (page : ℕ) (D : Dir) (m : Memory) (F E : Dir) (m' : Memory) (u : ℕ) : Prop where
  kept : Kept (some page) E none m' all
  new : ∀ w < u, ∃ e f, ent D w = some e ∧ all f ∧ ent E w = some ⟨f,e.flags⟩ ∧ m'.page f = m.page e.addr
  rest : ∀ w, u ≤ w → ent E w = ent F w
  changed : Changed all m m'

section
variable {page sz u : ℕ} {D E F : Dir} {m m1 : Memory} {all : ℕ → Prop}

lemma copyBad_spec {mem : Option ℕ} (K : Kept (some page) E mem m1 all) (hC : Changed all m m1) :
    ∃ m2, copyBad page E mem m1 = .ok (none,m2) ∧ Kept none noTabs none m2 all ∧ Changed all m m2 := by
  cases mem with
  | none =>
    obtain ⟨m2,hr,hK,hC2⟩ := freevm_spec (S := all) K fun p f h => K.own_all h
    refine ⟨m2,?_,hK,hC.trans hC2⟩
    change (freevm page E m1).bind (fun m => .ok (none,m)) = _
    rw [hr]
    rfl
  | some f =>
    have hval := K.valid_own (p := .hand) rfl
    obtain ⟨m2,hr,hK,hC2⟩ := freevm_spec (S := all) K.drop fun p f h => K.drop.own_all h
    refine ⟨m2,?_,hK,(hC.trans (.give (K.own_all (p := .hand) rfl))).trans hC2⟩
    change (kfree f m1).bind (fun m => (freevm page E m).bind fun m => .ok (none,m)) = _
    rw [kfree_valid hval]
    change (freevm page E (m1.give f)).bind _ = _
    rw [hr]
    rfl

lemma copyBody_page {e : Pte} {f : ℕ} {m2 : Memory} (hlt : 4096*u < sz) (hu : u < 2^20) (he : ent D u = some e)
    (hal : kalloc m1 = (some f,m2)) : copyBody D sz page (E,4096*u,m1) =
      copyNext page (4096*u) f (mappages E (4096*u) pgSize f e.flags (m2.put f (m2.page e.addr))) := by
  unfold copyBody
  cases ht : D (di u) with
  | none =>
    rw [ent_of_none ht] at he
    cases he
  | some t =>
    rw [ent_of_tab hu ht] at he
    simp only [if_pos hlt,walk_false,ht,map_some,pt_page,he]
    rw [hal]

lemma copyBody_short {e : Pte} {m2 : Memory} (hlt : 4096*u < sz) (hu : u < 2^20) (he : ent D u = some e)
    (hal : kalloc m1 = (none,m2)) : copyBody D sz page (E,4096*u,m1) = (copyBad page E none m2).map .inr := by
  unfold copyBody
  cases ht : D (di u) with
  | none =>
    rw [ent_of_none ht] at he
    cases he
  | some t =>
    rw [ent_of_tab hu ht] at he
    simp only [if_pos hlt,walk_false,ht,map_some,pt_page,he]
    rw [hal]

lemma copyBody_spec (hs : sz ≤ kernBase) (hlt : 4096*u < sz) (hp : (ent D u).isSome)
    (ho : ∀ w e, w < 2^19 → ent D w = some e → ¬all e.addr) (hF : ∀ w < 2^19, ent F w = none)
    (hC : Copied all page D m F E m1 u) :
    (∃ G m2, copyBody D sz page (E,4096*u,m1) = .ok (.inl (G,4096*(u+1),m2)) ∧ Copied all page D m F G m2 (u+1)) ∨
    ∃ m2, copyBody D sz page (E,4096*u,m1) = .ok (.inr (none,m2)) ∧ Kept none noTabs none m2 all ∧
      Changed all m m2 ∧ (m.Willing → Scarce all u) := by
  have hfree : ∀ w, u ≤ w → w < 2^19 → ent E w = none := fun w h1 h2 => (hC.rest w h1).trans (hF w h2)
  have hu : u < 2^19 := lt_of_lt_of_le (lt_npages.mpr hlt) (npages_le hs)
  obtain ⟨e,he⟩ := isSome_iff_exists.mp hp
  rcases kalloc_cases m1 with ⟨m2,hal,hf,hT,hbad⟩ | ⟨f,fs,m2,hal,hm1,hf,hT⟩
  · obtain ⟨m3,hr,hK,hC3⟩ := copyBad_spec (hC.kept.congr hf fun _ => rfl)
      (hC.changed.trans hT.widen)
    exact .inr ⟨m3,by rw [copyBody_short hlt (by omega) he hal,hr]; rfl,hK,hC3,
      fun hw => hC.kept.scarce (hbad (hC.changed.deny hw)) hfree⟩
  · have hK := (hC.kept.grab hm1 hf).put f (m2.page e.addr)
    have hfall : all f := hK.own_all (p := .hand) rfl
    have hC2 := (hC.changed.trans hT.widen).trans (.put hfall (m2.page e.addr))
    have hnone : ent E u = none := (hC.rest u (le_refl u)).trans (hF u hu)
    rcases mappages_page hK hu hnone e.flags with ⟨m3,hmap,hK3,hT3,hbad⟩ | ⟨G,m3,hmap,hK3,hT3,hent,-⟩
    · obtain ⟨m4,hr,hK4,hC4⟩ := copyBad_spec hK3 (hC2.trans hT3.widen)
      exact .inr ⟨m4,by rw [copyBody_page hlt (by omega) he hal,hmap,copyNext,hr]; rfl,hK4,hC4,
        fun hw => hK.scarce (hbad (hC2.deny hw)) hfree⟩
    · refine .inl ⟨G,m3,by rw [copyBody_page hlt (by omega) he hal,hmap,copyNext,next_page (by omega)],hK3,
        fun w hw => ?_,fun w hw => ?_,hC2.trans hT3.widen⟩
      · rw [hT3.taken.1,hent]
        by_cases hwu : w = u
        · refine ⟨e,f,by rw [hwu,he],hfall,if_pos hwu,?_⟩
          change update m2.page f _ f = _
          rw [update_self,hT.taken.1]
          exact hC.changed.page _ (ho u e hu he)
        · obtain ⟨e',g,he',hg,hge,hpage⟩ := hC.new w (by omega)
          refine ⟨e',g,he',hg,by rw [if_neg hwu,hge],?_⟩
          -- The page taken now was free, so it is none of those mapped before.
          have hne : g ≠ f := hC.kept.user_ne_head hm1 (show w < 2^19 by omega) hge
          change update m2.page f _ g = _
          rw [update_of_ne hne,hT.taken.1,hpage]
      · rw [hent,if_neg (by omega)]
        exact hC.rest w (by omega)

/-- `copyuvm` returns a copy, or nothing is left of it. -/
lemma copyuvm_spec (K : Kept none noTabs none m all) (hs : sz ≤ kernBase) (hp : ∀ w < npages sz, (ent D w).isSome)
    (ho : ∀ w e, w < 2^19 → ent D w = some e → ¬all e.addr) :
    ∃ r m', copyuvm D sz m = .ok (r,m') ∧ Changed all m m' ∧
      (r = none → Kept none noTabs none m' all ∧ (m.Willing → Scarce all (npages sz))) ∧
      ∀ page E, r = some (page,E) → ∃ F m1, setupkvm m = .ok (some (page,F),m1) ∧ (∀ w < 2^19, ent F w = none) ∧
        Copied all page D m F E m' (npages sz) := by
  obtain ⟨⟨r,m1⟩,hr,hres⟩ := setupkvm_spec K
  unfold copyuvm
  rw [hr]
  cases r with
  | none => exact ⟨none,m1,rfl,hres.2.1,fun _ => ⟨hres.1,fun hw => (hres.2.2 hw).mono (Nat.zero_le _)⟩,nofun⟩
  | some r =>
    obtain ⟨page,F⟩ := r
    obtain ⟨hK,hT,hker⟩ := hres
    have hF : ∀ w < 2^19, ent F w = none := fun w hw => hker.user hw
    obtain ⟨⟨r,m'⟩,hr',hC,hnone,hsome⟩ := rounds_spec (f := copyBody D sz page)
      (g := fun s => (some (page,s.1),s.2.2))
      (I := fun s => ∃ u ≤ npages sz, s.2.1 = 4096*u ∧ Copied all page D m F s.1 s.2.2 u)
      (Q := fun r => Changed all m r.2 ∧ (r.1 = none → Kept none noTabs none r.2 all ∧
        (m.Willing → Scarce all (npages sz))) ∧ ∀ pg E, r.1 = some (pg,E) → pg = page ∧ Copied all page D m F E r.2 (npages sz))
      (fun s => npages sz-s.2.1/4096) (by
        rintro ⟨E,a,m2⟩ ⟨u,hu,rfl,hC⟩
        by_cases hlt : 4096*u < sz
        · have hun := lt_npages.mpr hlt
          rcases copyBody_spec hs hlt (hp u hun) ho hF hC with ⟨G,m3,hb,hC3⟩ | ⟨m3,hb,hK3,hC3,hsc⟩
          · exact .inl ⟨_,hb,⟨u+1,hun,rfl,hC3⟩,by simp only; omega⟩
          · exact .inr ⟨_,hb,hC3,fun _ => ⟨hK3,fun hw => (hsc hw).mono hu⟩,nofun⟩
        · have hun := mt lt_npages.mp hlt
          obtain rfl : u = npages sz := by omega
          refine .inr ⟨_,if_neg hlt,hC.changed,nofun,fun pg E h => ?_⟩
          cases h
          exact ⟨rfl,hC⟩)
      (s := (F,0,m1)) (k := sz/pgSize+2)
      ⟨0,zero_le _,rfl,hK,nofun,fun _ _ => rfl,hT.widen⟩ (by
        unfold pgSize npages
        omega)
    refine ⟨r,m',hr',hC,hnone,fun pg E h => ?_⟩
    obtain ⟨rfl,hCop⟩ := hsome pg E h
    exact ⟨F,m1,rfl,hF,hCop⟩

end

/-- A copy has the pages below `sz` at pages of their own, with the flags and the contents of the parent's, and what
the user writes on one side is not seen on the other. Without a copy the same pages are free. -/
theorem copyuvm_isolated {D : Dir} {m : Memory} {sz : ℕ} (hnd : m.free.Nodup) (hv : ∀ f ∈ m.free, Valid f)
    (hs : sz ≤ kernBase) (hp : ∀ w < npages sz, (ent D w).isSome)
    (ho : ∀ w e, w < 2^19 → ent D w = some e → e.addr ∉ m.free) :
    ∃ r m', copyuvm D sz m = .ok (r,m') ∧ (∀ f ∉ m.free, m'.page f = m.page f) ∧ (r = none → m'.free.Perm m.free) ∧
      ∀ page E, r = some (page,E) →
        (∀ w < npages sz, ∃ e f, ent D w = some e ∧ f ∈ m.free ∧ f ∉ m'.free ∧ ent E w = some ⟨f,e.flags⟩ ∧
          m'.page f = m.page e.addr) ∧
        (∀ w w' e e', w < 2^19 → w' < 2^19 → ent E w = some e → ent E w' = some e' → e.addr = e'.addr → w = w') ∧
        (∀ w w' e e', w < 2^19 → w' < 2^19 → ent E w = some e → ent D w' = some e' → e.addr ≠ e'.addr) ∧
        (∀ w, npages sz ≤ w → w < 2^19 → ent E w = none) ∧
        (∃ F m1, setupkvm m = .ok (some (page,F),m1) ∧ ∀ w, 2^19 ≤ w → ent E w = ent F w) ∧
        ∀ m2 a a' b, a < kernBase → a' < kernBase →
          load D (store E a b m2) a' = load D m2 a' ∧ load E (store D a b m2) a' = load E m2 a' := by
  obtain ⟨r,m',hr,hC,hnone,hsome⟩ := copyuvm_spec (.start hnd hv) hs hp ho
  have hle := npages_le hs
  refine ⟨r,m',hr,hC.page,fun h => Kept.perm (.start hnd hv) (hnone h).1,fun page E h => ?_⟩
  obtain ⟨F,m1,hkvm,hF,hcop⟩ := hsome page E h
  have habove : ∀ w, npages sz ≤ w → w < 2^19 → ent E w = none := fun w h1 h2 => (hcop.rest w h1).trans (hF w h2)
  have hapart : ∀ w w' e e', w < 2^19 → w' < 2^19 → ent E w = some e → ent D w' = some e' → e.addr ≠ e'.addr := by
    intro w w' e e' hw hw' he he' ha
    by_cases hwn : w < npages sz
    · obtain ⟨_,f,-,hf,hfe,-⟩ := hcop.new w hwn
      rw [he] at hfe
      cases hfe
      exact ho w' e' hw' he' (ha ▸ hf)
    · rw [habove w (by omega) hw] at he
      cases he
  have hpage : ∀ {a}, a < kernBase → a/4096 < 2^19 := fun h => by
    unfold kernBase at h
    omega
  refine ⟨fun w hw => ?_,fun w w' e e' hw hw' he he' => hcop.kept.user_inj hw hw' he he',hapart,habove,
    ⟨F,m1,hkvm,fun w hw => hcop.rest w (by omega)⟩,fun m2 a a' b ha ha' => ⟨load_store b fun e e' he he' => ?_,
      load_store b fun e e' he he' => hapart _ _ e e' (hpage ha') (hpage ha) he he'⟩⟩
  · obtain ⟨e,f,he,hf,hfe,hpg⟩ := hcop.new w hw
    exact ⟨e,f,he,hf,hcop.kept.user_not_free (show w < 2^19 by omega) hfe,hfe,hpg⟩
  · exact (hapart _ _ e' e (hpage ha) (hpage ha') he' he).symm

/-- The `k` pages of the allocator from page `a` on. -/
def pagesFrom (a k : ℕ) : List ℕ := (List.range k).map fun n => nthPage (a+n)

lemma mem_pagesFrom {a k f : ℕ} : f ∈ pagesFrom a k ↔ ∃ n < k, f = nthPage (a+n) := by
  simp only [pagesFrom,List.mem_map,mem_range,eq_comm]

lemma nthPage_inj {a b : ℕ} (h : nthPage a = nthPage b) : a = b := by
  unfold nthPage at h
  omega

lemma pagesFrom_nodup (a k : ℕ) : (pagesFrom a k).Nodup :=
  nodup_range.map fun _ _ h => Nat.add_left_cancel (nthPage_inj h)

lemma nthPage_valid {k : ℕ} (h : k < 20000) : Valid (nthPage k) := by
  unfold nthPage
  refine ⟨?_,?_,?_⟩
  · unfold pgSize
    omega
  · unfold endAddr kernBase
    omega
  · unfold phystop
    omega

lemma pagesFrom_valid {a k f : ℕ} (h : a+k ≤ 20000) (hf : f ∈ pagesFrom a k) : Valid f := by
  obtain ⟨n,hn,rfl⟩ := mem_pagesFrom.mp hf
  exact nthPage_valid (by omega)

lemma not_scarce_pagesFrom {a k n : ℕ} (h : n+1026 < k) : ¬Scarce (· ∈ pagesFrom a k) n := fun hs => by
  have hlen := hs (pagesFrom a k) (pagesFrom_nodup a k) fun _ => id
  rw [pagesFrom,length_map,length_range] at hlen
  omega

/-- The memory of the process of one page, with 1100 pages left. -/
def manyLeft : Memory := ⟨pagesFrom 3 1100,fun _ => false,fun _ _ => 7⟩

lemma manyLeft_free : manyLeft.free = pagesFrom 3 1100 := by rw [manyLeft]

lemma manyLeft_nodup : manyLeft.free.Nodup := by
  rw [manyLeft_free]
  exact pagesFrom_nodup 3 1100

lemma manyLeft_valid : ∀ f ∈ manyLeft.free, Valid f := by
  intro f hf
  rw [manyLeft_free] at hf
  exact pagesFrom_valid (a := 3) (k := 1100) (by decide) hf

lemma oneDir_not_manyLeft (w : ℕ) (e : Pte) (_ : w < 2^19) (he : ent oneDir w = some e) : e.addr ∉ manyLeft.free := by
  rw [manyLeft_free,mem_pagesFrom]
  rintro ⟨n,-,hn⟩
  rw [ent_oneDir] at he
  split_ifs at he
  cases he
  have := nthPage_inj hn
  omega

lemma oneDir_present (w : ℕ) (hw : w < npages 4096) : (ent oneDir w).isSome := by
  rw [show w = 0 from Nat.lt_one_iff.mp hw,ent_oneDir]
  rfl

lemma manyLeft_copied {r : Option (ℕ × Dir)} {m' : Memory} (hr : copyuvm oneDir 4096 manyLeft = .ok (r,m')) :
    r ≠ none := by
  rintro rfl
  obtain ⟨r,m1,hr',-,hnone,-⟩ := copyuvm_spec (.start manyLeft_nodup manyLeft_valid) (show 4096 ≤ kernBase by decide)
    oneDir_present oneDir_not_manyLeft
  cases hr.symm.trans hr'
  have hs := (hnone rfl).2 fun _ => rfl
  rw [manyLeft_free] at hs
  exact not_scarce_pagesFrom (a := 3) (k := 1100) (n := npages 4096) (by decide) hs

/-- A process of one page is copied. -/
theorem copyuvm_one_page : ∃ page E m', copyuvm oneDir 4096 manyLeft = .ok (some (page,E),m') ∧
    (∃ f ∈ manyLeft.free, ent E 0 = some ⟨f,.user⟩ ∧ m'.page f = fun _ => 7) ∧
    load E (store oneDir 0 1 m') 0 = some 7 := by
  obtain ⟨r,m',hr,-,-,hsome⟩ := copyuvm_isolated manyLeft_nodup manyLeft_valid (show 4096 ≤ kernBase by decide)
    oneDir_present oneDir_not_manyLeft
  obtain ⟨⟨page,E⟩,rfl⟩ := ne_none_iff_exists'.mp (manyLeft_copied hr)
  obtain ⟨hnew,-,-,-,-,hapart⟩ := hsome page E rfl
  obtain ⟨e,f,he,hf,-,hE,hpage⟩ := hnew 0 (by decide)
  rw [ent_oneDir,if_pos rfl] at he
  cases he
  refine ⟨page,E,m',hr,⟨f,hf,hE,hpage⟩,?_⟩
  rw [(hapart m' 0 0 1 (by decide) (by decide)).2,load,hE,map_some,hpage]
  rfl

variable {all : ℕ → Prop} {c : Space} {m : Memory}

/-- The pages of the allocator are free or those of process `c`, which has no user page above its size. -/
structure Held (all : ℕ → Prop) (c : Space) (m : Memory) : Prop where
  kept : Kept (some c.page) c.dir none m all
  top : ∀ w, npages c.sz.toNat ≤ w → w < 2^19 → ent c.dir w = none
  small : c.sz.toNat ≤ kernBase

lemma growproc_held (h : Held all c m) (n : Int32) :
    ∃ r, growproc n c m = .ok r ∧ Held all r.2.1 r.2.2 ∧ Changed all m r.2.2 := by
  have hdone : ∀ sz E m', sz ≤ kernBase → Kept (some c.page) E none m' all → Changed all m m' →
      (∀ w, npages (if sz = 0 then c.sz.toNat else sz) ≤ w → w < 2^19 → ent E w = none) →
      ∃ r, (Except.ok (if sz = 0 then (false,{ c with dir := E },m')
        else (true,{ c with sz := UInt32.ofNat sz, dir := E },m')) : Except Panic _) = .ok r ∧
          Held all r.2.1 r.2.2 ∧ Changed all m r.2.2 := by
    intro sz E m' hsz hK hC htop
    split_ifs at htop ⊢ with h0
    · exact ⟨_,rfl,⟨hK,htop,h.small⟩,hC⟩
    · have hnat := UInt32.toNat_ofNat_of_lt' (show sz < 2^32 by unfold kernBase at hsz; omega)
      exact ⟨_,rfl,⟨hK,by rwa [hnat],by rwa [hnat]⟩,hC⟩
  have hsmall := h.small
  have hle := npages_le hsmall
  unfold growproc
  dsimp only
  split_ifs with h1 h2
  · obtain ⟨r,E,m',hr,⟨rfl,hU,-⟩ | ⟨hs,rfl,hG⟩⟩ := allocuvm_spec h.kept (c.sz+n.toUInt32).toNat h.top <;> rw [hr]
    · exact hdone 0 E m' (Nat.zero_le _) hU.kept (hU.changed.mono fun f => h.kept.free_all)
        fun w hw hw' => (hU.same w).trans (h.top w hw hw')
    · refine hdone _ E m' (by omega) hG.kept (hG.changed.mono fun f => h.kept.free_all) fun w hw hw' => ?_
      have hnew : npages c.sz.toNat ≤ w ∧ npages (c.sz+n.toUInt32).toNat ≤ w := by
        unfold npages at hw ⊢
        split_ifs at hw <;> omega
      exact (hG.old w (by omega)).trans (h.top w hnew.1 hw')
  · obtain ⟨E,m',hr,hfr⟩ := deallocuvm_spec (S := all) h.kept hsmall (c.sz+n.toUInt32).toNat fun w e _ hw he =>
      h.kept.own_all (p := .user w) (by simp only [own,if_pos (show w < 2^19 by omega),he,map_some])
    rw [hr]
    refine hdone _ E m' (by omega) hfr.kept hfr.changed fun w hw hw' => ?_
    rw [hfr.shrunk]
    split_ifs with hc
    · rfl
    · refine h.top w ?_ hw'
      unfold npages at hw hc ⊢
      split_ifs at hw <;> omega
  · exact ⟨_,rfl,h,.refl m⟩

/-- Calls of `sbrk` one after the other. -/
def sbrks : List Int32 → Space → Memory → Except Panic (Space × Memory)
  | [],c,m => .ok (c,m)
  | n :: ns,c,m => growproc n c m >>= fun r => sbrks ns r.2.1 r.2.2

lemma sbrks_held (ns : List Int32) (h : Held all c m) :
    ∃ r, sbrks ns c m = .ok r ∧ Held all r.1 r.2 ∧ Changed all m r.2 := by
  induction ns generalizing c m with
  | nil => exact ⟨_,rfl,h,.refl m⟩
  | cons n ns ih =>
    obtain ⟨r,hr,h1,hC⟩ := growproc_held h n
    obtain ⟨r',hr',h2,hC'⟩ := ih h1
    exact ⟨r',by rw [sbrks,hr]; exact hr',h2,hC.trans hC'⟩

/-- `fork`, any calls of `sbrk` in the child, and `freevm` when it is reaped: nothing panics, all pages are free again that
were, and the others have not changed. -/
theorem fork_leaks_nothing {D : Dir} {sz : ℕ} (hnd : m.free.Nodup) (hv : ∀ f ∈ m.free, Valid f)
    (hs : sz ≤ kernBase) (hp : ∀ w < npages sz, (ent D w).isSome)
    (ho : ∀ w e, w < 2^19 → ent D w = some e → e.addr ∉ m.free) (ns : List Int32) :
    ∃ r m1, copyuvm D sz m = .ok (r,m1) ∧ (r = none → m1.free.Perm m.free) ∧ ∀ page E, r = some (page,E) →
      ∃ c m2 m3, sbrks ns ⟨UInt32.ofNat sz,page,E⟩ m1 = .ok (c,m2) ∧ freevm c.page c.dir m2 = .ok m3 ∧
        m3.free.Perm m.free ∧ ∀ f ∉ m.free, m3.page f = m.page f := by
  have hK := Kept.start hnd hv
  obtain ⟨r,m1,hr,hC,hnone,hsome⟩ := copyuvm_spec hK hs hp ho
  refine ⟨r,m1,hr,fun h => hK.perm (hnone h).1,fun page E h => ?_⟩
  obtain ⟨F,_,-,hF,hcop⟩ := hsome page E h
  have hnat := UInt32.toNat_ofNat_of_lt' (show sz < 2^32 by unfold kernBase at hs; omega)
  have h1 : Held (· ∈ m.free) ⟨UInt32.ofNat sz,page,E⟩ m1 :=
    ⟨hcop.kept,fun w hw hw' => (hcop.rest w (by rwa [hnat] at hw)).trans (hF w hw'),by rwa [hnat]⟩
  obtain ⟨⟨c,m2⟩,hr2,h2,hC2⟩ := sbrks_held ns h1
  obtain ⟨m3,hr3,hK3,hC3⟩ := freevm_spec (S := (· ∈ m.free)) h2.kept fun p f hf => h2.kept.own_all hf
  exact ⟨c,m2,m3,hr2,hr3,hK.perm hK3,((hC.trans hC2).trans hC3).page⟩

/-- A process of one page forks, and its child grows by a page and then tries to shrink to nothing. -/
theorem fork_leaks_nothing_one_page : ∃ page E m1, copyuvm oneDir 4096 manyLeft = .ok (some (page,E),m1) ∧
    ∃ c m2 m3, sbrks [4096,-8192] ⟨4096,page,E⟩ m1 = .ok (c,m2) ∧ freevm c.page c.dir m2 = .ok m3 ∧
      m3.free.Perm manyLeft.free ∧ ∀ f ∉ manyLeft.free, m3.page f = fun _ => 7 := by
  obtain ⟨r,m1,hr,-,hsome⟩ := fork_leaks_nothing manyLeft_nodup manyLeft_valid (show 4096 ≤ kernBase by decide)
    oneDir_present oneDir_not_manyLeft [4096,-8192]
  obtain ⟨⟨page,E⟩,rfl⟩ := ne_none_iff_exists'.mp (manyLeft_copied hr)
  exact ⟨page,E,m1,hr,hsome page E rfl⟩

end Xv6Threads.Mem
