import Xv6Threads.Mem.Grow

/-! The size of a process: `allocuvm` adds all its pages or none, and `growproc` changes the size by `n` or nothing,
but where the new size would be 0 or less. -/
namespace Xv6Threads.Mem
open Function Option Int32
open Vm (kernBase npages lt_npages npages_mono npages_le)

/-- The user pages are those below `sz`. -/
def Fills (D : Dir) (sz : ℕ) : Prop := ∀ w < 2^19, (ent D w).isSome ↔ w < npages sz

/-- The byte at address `a` of the process. -/
def load (D : Dir) (m : Memory) (a : ℕ) : Option UInt8 := (ent D (a/4096)).map fun e => m.page e.addr (a%4096)

lemma load_congr {D E : Dir} {m m' : Memory} {a : ℕ} (he : ent E (a/4096) = ent D (a/4096))
    (hp : ∀ e, ent D (a/4096) = some e → m'.page e.addr = m.page e.addr) : load E m' a = load D m a := by
  unfold load
  rw [he]
  cases h : ent D (a/4096) with
  | none => rfl
  | some e => rw [map_some,map_some,hp e h]

lemma Fills.none {D : Dir} {sz w : ℕ} (h : Fills D sz) (hw : npages sz ≤ w) (h19 : w < 2^19) : ent D w = none := by
  rw [← not_isSome_iff_eq_none,h w h19]
  omega

variable {page : Option ℕ} {D E : Dir} {m m' : Memory} {all : ℕ → Prop} {oldsz newsz : ℕ}

lemma Grown.fills (h : Grown page all D m E m' (npages oldsz) (npages newsz)) (hF : Fills D oldsz) :
    Fills E (max oldsz newsz) := by
  intro w hw
  have hmax : npages (max oldsz newsz) = max (npages oldsz) (npages newsz) := by
    unfold npages
    omega
  rw [hmax]
  by_cases hc : npages oldsz ≤ w ∧ w < npages newsz
  · obtain ⟨f,-,hf,-⟩ := h.new w hc.1 hc.2
    simp only [hf,isSome_some,true_iff]
    omega
  · rw [h.old w hc,hF w hw]
    omega

lemma Undone.returned (K : Kept page D none m all) (h : Undone page all D m E m') {f : ℕ} (hf : f ∈ m.free) :
    f ∈ m'.free ∨ ∃ i t, E i = some t ∧ t.page = f := by
  rcases (h.kept.stock.mem_iff f).mp (K.free_all hf) with hf' | ⟨p,hp⟩
  · exact .inl hf'
  · cases p with
    | tab i =>
      obtain ⟨t,ht,htp⟩ := map_eq_some_iff.mp hp
      exact .inr ⟨i,t,ht,htp⟩
    | dir => exact absurd hf (K.stock.apart (p := .dir) hp)
    | hand => exact absurd hf (K.stock.apart (p := .hand) hp)
    | user w =>
      simp only [own,h.same] at hp
      exact absurd hf (K.stock.apart (p := .user w) hp)

/-- `allocuvm` never panics. A size other than 0 is the larger one, with pages up to it, those added being zero, the
user's to write and different from each other. If it is 0 nothing but page tables has been taken. -/
theorem allocuvm_all_or_nothing {page : ℕ} (K : Kept (some page) D none m all) (hF : Fills D oldsz) (newsz : ℕ) :
    ∃ r E m', allocuvm D oldsz newsz m = .ok (r,E,m') ∧ (∀ f ∉ m.free, m'.page f = m.page f) ∧
      (r ≠ 0 → r = max oldsz newsz ∧ Fills E r ∧ (∀ w < npages oldsz, ent E w = ent D w) ∧
        (∀ w, npages oldsz ≤ w → w < npages r → ∃ f ∈ m.free, ent E w = some ⟨f,.user⟩ ∧ m'.page f = fun _ => 0) ∧
        ∀ w w' e e', w < 2^19 → w' < 2^19 → ent E w = some e → ent E w' = some e' → e.addr = e'.addr → w = w') ∧
      (r = 0 → 0 < oldsz → (∀ w, ent E w = ent D w) ∧
        ∀ f ∈ m.free, f ∈ m'.free ∨ ∃ i t, E i = some t ∧ t.page = f) := by
  obtain ⟨r,E,m',hr,⟨rfl,hU,-⟩ | ⟨hs,rfl,hG⟩⟩ := allocuvm_spec K newsz fun w h1 h2 => hF.none h1 h2
  · exact ⟨0,E,m',hr,hU.changed.page,fun h => (h rfl).elim,fun _ _ => ⟨hU.same,fun f hf => hU.returned K hf⟩⟩
  · refine ⟨_,E,m',hr,hG.changed.page,fun _ => ⟨rfl,hG.fills hF,fun w hw => hG.old w (by omega),fun w h1 h2 => ?_,
      fun w w' e e' hw hw' he he' ha => hG.kept.user_inj hw hw' he he' ha⟩,fun h0 h1 => by omega⟩
    refine hG.new w h1 ?_
    have := lt_npages.mp h2
    have := mt lt_npages.mpr (Nat.not_lt.mpr h1)
    exact lt_npages.mpr (by omega)

section

/-- A page of the allocator, by its number. -/
def nthPage (n : ℕ) : ℕ := 0x200000+4096*n

/-- The directory of a process with one page, and its table. -/
def oneDir : Dir :=
  setPte (update noTabs 0 (some ⟨nthPage 1,fun _ => none⟩)) (4096*0) ⟨nthPage 1,fun _ => none⟩
    (some ⟨nthPage 2,.user⟩)

/-- The memory with one page left. -/
def oneLeft : Memory := ⟨[nthPage 3],fun _ => false,fun _ _ => 7⟩

lemma ent_oneDir (w : ℕ) : ent oneDir w = if w = 0 then some ⟨nthPage 2,.user⟩ else none := by
  unfold oneDir
  rw [ent_setPte (v := 0) (by decide) (by rfl),ent_newTab rfl,ent_noTabs]

lemma oneDir_kept : Kept (some (nthPage 0)) oneDir none oneLeft (· ∈ [nthPage 0,nthPage 1,nthPage 2,nthPage 3]) := by
  have h0 := Kept.start (m := ⟨[nthPage 0,nthPage 1,nthPage 2,nthPage 3],fun _ => false,fun _ _ => 7⟩) (by decide) (by
    intro f hf
    simp only [List.mem_cons,List.not_mem_nil,or_false] at hf
    rcases hf with rfl | rfl | rfl | rfl <;> exact ⟨by decide,by decide,by decide⟩)
  have hg : Kept none noTabs (some (nthPage 0)) ⟨[nthPage 1,nthPage 2,nthPage 3],fun _ => false,fun _ _ => 7⟩
      (· ∈ [nthPage 0,nthPage 1,nthPage 2,nthPage 3]) := h0.grab rfl rfl
  have h2 : Kept (some (nthPage 0)) (update noTabs 0 (some ⟨nthPage 1,fun _ => none⟩)) none
      ⟨[nthPage 2,nthPage 3],fun _ => false,fun _ _ => 7⟩ (· ∈ [nthPage 0,nthPage 1,nthPage 2,nthPage 3]) :=
    hg.newDir.table rfl rfl rfl
  have h3 : Kept (some (nthPage 0)) (update noTabs 0 (some ⟨nthPage 1,fun _ => none⟩)) (some (nthPage 2))
      oneLeft (· ∈ [nthPage 0,nthPage 1,nthPage 2,nthPage 3]) := h2.grab rfl rfl
  exact h3.map (v := 0) (by decide) rfl (by rw [ent_newTab rfl,ent_noTabs]) .user

lemma oneDir_fills : Fills oneDir 4096 := by
  intro w _
  rw [ent_oneDir]
  split_ifs with hw
  · simp [hw,npages]
  · simp [npages]
    omega

end

/-- The last page is enough for one more. -/
theorem allocuvm_one_left : ∃ E m', allocuvm oneDir 4096 8192 oneLeft = .ok (8192,E,m') ∧ Fills E 8192 ∧
    ent E 0 = some ⟨nthPage 2,.user⟩ ∧ ∃ f ∈ oneLeft.free, ent E 1 = some ⟨f,.user⟩ := by
  obtain ⟨r,E,m',hr,-,hs,-⟩ := allocuvm_all_or_nothing oneDir_kept oneDir_fills 8192
  have hdone : (allocuvm oneDir 4096 8192 oneLeft).map Prod.fst = .ok 8192 := rfl
  rw [hr] at hdone
  cases hdone
  obtain ⟨-,hF,hold,hnew,-⟩ := hs (by decide)
  obtain ⟨f,hf,he,-⟩ := hnew 1 (by decide) (by decide)
  exact ⟨E,m',hr,hF,by rw [hold 0 (by decide),ent_oneDir,if_pos rfl],f,hf,he⟩

section
variable {c : Space} {n : Int32}

lemma toNat_add_pos (hs : c.sz.toNat ≤ kernBase) (hn : 0 < n) : ((c.sz+n.toUInt32).toNat : ℤ) = c.sz.toNat+n.toInt := by
  unfold kernBase at hs
  have h1 : 0 < n.toInt := lt_iff_toInt_lt.mp hn
  have h2 := n.toInt_lt
  have h3 : (n.toUInt32.toNat : ℤ) = n.toInt := by
    have : n.toInt = n.toUInt32.toBitVec.toInt := rfl
    rw [this,BitVec.toInt_eq_toNat_cond] at h1 ⊢
    split_ifs at h1 ⊢ with hc
    · rfl
    · have := n.toUInt32.toBitVec.isLt
      omega
  rw [UInt32.toNat_add]
  omega

lemma toNat_add_neg (hs : c.sz.toNat ≤ kernBase) (hn : n < 0) :
    (c.sz+n.toUInt32).toNat = if -n.toInt ≤ c.sz.toNat then c.sz.toNat-(-n.toInt).toNat
      else 2^32+c.sz.toNat-(-n.toInt).toNat := by
  unfold kernBase at hs
  have h1 : n.toInt < 0 := lt_iff_toInt_lt.mp hn
  have h2 := n.le_toInt
  have h3 : (n.toUInt32.toNat : ℤ) = n.toInt+2^32 := by
    have : n.toInt = n.toUInt32.toBitVec.toInt := rfl
    rw [this,BitVec.toInt_eq_toNat_cond] at h1 ⊢
    split_ifs at h1 ⊢ with hc
    · omega
    · change (n.toUInt32.toBitVec.toNat : ℤ) = _
      omega
  rw [UInt32.toNat_add]
  split_ifs with hc <;> omega

section
variable {page : ℕ} {all : ℕ → Prop} (K : Kept (some page) c.dir none m all) (hF : Fills c.dir c.sz.toNat) (hs : c.sz.toNat ≤ kernBase)
include K hF hs

lemma growproc_pos (hn : 0 < n) :
    ∃ b E m', growproc n c m = .ok (b,{ c with sz := if b then c.sz+n.toUInt32 else c.sz, dir := E },m') ∧
      (∀ w < npages c.sz.toNat, ent E w = ent c.dir w) ∧ (∀ f ∉ m.free, m'.page f = m.page f) ∧
      (b = true → Fills E (c.sz+n.toUInt32).toNat) ∧ (b = false → ∀ w, ent E w = ent c.dir w) := by
  have hnew := toNat_add_pos (c := c) hs hn
  have h1 : 0 < n.toInt := lt_iff_toInt_lt.mp hn
  unfold growproc
  simp only [if_pos hn]
  obtain ⟨r,E,m',hr,⟨rfl,hU,-⟩ | ⟨-,rfl,hG⟩⟩ := allocuvm_spec K (c.sz+n.toUInt32).toNat fun w h1 h2 => hF.none h1 h2
  · exact ⟨false,E,m',by simp only [hr,Except.map]; rfl,fun w _ => hU.same w,hU.changed.page,nofun, fun _ => hU.same⟩
  · have hfill := hG.fills hF
    rw [show max c.sz.toNat (c.sz+n.toUInt32).toNat = (c.sz+n.toUInt32).toNat by omega] at hr hfill
    refine ⟨true,E,m',?_,fun w hw => hG.old w (by omega),hG.changed.page,fun _ => hfill,nofun⟩
    rw [hr]
    simp only [Except.map,if_neg (show (c.sz+n.toUInt32).toNat ≠ 0 by omega),UInt32.ofNat_toNat,if_true]

lemma growproc_neg (hn : n < 0) (hpos : 0 < c.sz.toNat+n.toInt) :
    ∃ E m', growproc n c m = .ok (true,{ c with sz := c.sz+n.toUInt32, dir := E },m') ∧
      Fills E (c.sz+n.toUInt32).toNat ∧ ∀ w < npages (c.sz+n.toUInt32).toNat, ent E w = ent c.dir w ∧
        ∀ e, ent c.dir w = some e → m'.page e.addr = m.page e.addr := by
  have hnew := toNat_add_neg (c := c) hs hn
  have h1 : n.toInt < 0 := lt_iff_toInt_lt.mp hn
  rw [if_pos (by omega)] at hnew
  have hle19 := npages_le hs
  have hnp : ¬(0 : Int32) < n := fun h => by
    have := lt_iff_toInt_lt.mp h
    simp only [toInt_zero] at this
    omega
  obtain ⟨E,m',hr,hfr⟩ := deallocuvm_spec
    (S := fun f => ∃ w e, npages (c.sz+n.toUInt32).toNat ≤ w ∧ w < npages c.sz.toNat ∧ ent c.dir w = some e ∧ e.addr = f)
    K hs (c.sz+n.toUInt32).toNat fun w e h1 h2 he => ⟨w,e,h1,h2,he,rfl⟩
  have hmono : npages (c.sz+n.toUInt32).toNat ≤ npages c.sz.toNat := npages_mono (by omega)
  rw [Nat.min_eq_right (by omega)] at hr
  refine ⟨E,m',?_,fun w hw => ?_,fun w hw => ⟨?_,fun e he => ?_⟩⟩
  · simp only [growproc,if_neg hnp,if_pos hn,hr,Except.map,if_neg (show (c.sz+n.toUInt32).toNat ≠ 0 by omega),
      UInt32.ofNat_toNat]
  · rw [hfr.shrunk]
    split_ifs with hc
    · simp only [isSome_none,Bool.false_eq_true,false_iff]
      omega
    · rw [hF w hw]
      omega
  · rw [hfr.shrunk,if_neg (by omega)]
  · -- The pages given back are others.
    refine hfr.changed.page _ ?_
    rintro ⟨w',e',h1,h2,he',ha⟩
    have := K.user_inj (by omega) (by omega) he' he ha
    omega

end

/-- `growproc` changes the size by `n`, with just the pages for it, or nothing. -/
def Exact (n : Int32) (c : Space) (m : Memory) : Prop :=
  ∃ b c' m', growproc n c m = .ok (b,c',m') ∧
    (b = true → (c'.sz.toNat : ℤ) = c.sz.toNat+n.toInt ∧ Fills c'.dir c'.sz.toNat ∧
      ∀ a < min c.sz.toNat c'.sz.toNat, load c'.dir m' a = load c.dir m a) ∧
    (b = false → c'.sz = c.sz ∧ (∀ w, ent c'.dir w = ent c.dir w) ∧
      ∀ a < kernBase, load c'.dir m' a = load c.dir m a)

section
variable {page : ℕ} {all : ℕ → Prop} (K : Kept (some page) c.dir none m all) (hF : Fills c.dir c.sz.toNat)
  (hs : c.sz.toNat ≤ kernBase)
include K hF hs

lemma exact_of_pos (hn : 0 < n) : Exact n c m := by
  have hnew := toNat_add_pos (c := c) hs hn
  obtain ⟨b,E,m',hr,hold,hpage,htrue,hfalse⟩ := growproc_pos K hF hs hn
  have hcont : ∀ w e, w < 2^19 → ent c.dir w = some e → m'.page e.addr = m.page e.addr :=
    fun w e hw he => hpage _ (K.user_not_free hw he)
  refine ⟨b,_,m',hr,?_,?_⟩
  · rintro rfl
    refine ⟨by simp only [if_true]; exact hnew,htrue rfl,fun a ha => ?_⟩
    have hw : a/4096 < npages c.sz.toNat := lt_npages.mpr (by simp only at ha; omega)
    exact load_congr (hold _ hw) fun e he => hcont _ e (Nat.lt_of_lt_of_le hw (npages_le hs)) he
  · rintro rfl
    refine ⟨rfl,hfalse rfl,fun a ha => load_congr (hfalse rfl _) fun e he => hcont _ e ?_ he⟩
    unfold kernBase at ha
    omega

lemma exact_of_neg (hn : n < 0) (hpos : 0 < c.sz.toNat+n.toInt) : Exact n c m := by
  have h1 : n.toInt < 0 := Int32.lt_iff_toInt_lt.mp hn
  obtain ⟨E,m',hr,hfill,hsame⟩ := growproc_neg K hF hs hn hpos
  have hnew := toNat_add_neg (c := c) hs hn
  rw [if_pos (by omega)] at hnew
  refine ⟨true,_,m',hr,fun _ => ⟨?_,hfill,fun a ha => ?_⟩,nofun⟩
  · simp only
    omega
  · have := hsame (a/4096) (lt_npages.mpr (by simp only at ha; omega))
    exact load_congr this.1 this.2

/-- Shrinking to nothing gives the pages back and returns -1. -/
lemma not_exact_to_zero (hn : n < 0) (hzero : c.sz.toNat+n.toInt = 0) : ¬Exact n c m := by
  have h1 : n.toInt < 0 := Int32.lt_iff_toInt_lt.mp hn
  have hnp : ¬(0 : Int32) < n := Int32.not_lt.mpr (Int32.le_of_lt hn)
  have hnew := toNat_add_neg (c := c) hs hn
  rw [if_pos (by omega)] at hnew
  obtain ⟨E,m₁,hr,hfr⟩ := deallocuvm_spec (S := fun _ => True) K hs 0 fun _ _ _ _ _ => trivial
  rintro ⟨b,c',m',hg,-,hfail⟩
  simp only [growproc,if_neg hnp,if_pos hn,show (c.sz+n.toUInt32).toNat = 0 by omega,hr,Nat.min_zero,Except.map,if_true,
    Except.ok.injEq,Prod.mk.injEq] at hg
  obtain ⟨rfl,rfl,rfl⟩ := hg
  have h0 : 0 < npages c.sz.toNat := lt_npages.mpr (by omega)
  have hgone := (hfail rfl).2.1 0
  rw [hfr.shrunk,if_pos ⟨by decide,h0⟩] at hgone
  have := (hF 0 (by decide)).mpr h0
  rw [← hgone] at this
  cases this

omit K hF in
/-- Shrinking further wraps to a larger size: nothing happens, and 0 is returned. -/
lemma not_exact_below_zero (hn : n < 0) (hz : c.sz ≠ 0) (hneg : c.sz.toNat+n.toInt < 0) : ¬Exact n c m := by
  have h1 : n.toInt < 0 := Int32.lt_iff_toInt_lt.mp hn
  have h2 := n.le_toInt
  have hnp : ¬(0 : Int32) < n := Int32.not_lt.mpr (Int32.le_of_lt hn)
  have hz' : c.sz.toNat ≠ 0 := fun h => hz (UInt32.toNat_inj.mp h)
  have hnew := toNat_add_neg (c := c) hs hn
  rw [if_neg (by omega)] at hnew
  rintro ⟨b,c',m',hg,hdone,-⟩
  simp only [growproc,if_neg hnp,if_pos hn,deallocuvm,if_pos (show c.sz.toNat ≤ (c.sz+n.toUInt32).toNat by omega),
    Except.map,if_neg hz',UInt32.ofNat_toNat,Except.ok.injEq,Prod.mk.injEq] at hg
  obtain ⟨rfl,rfl,rfl⟩ := hg
  have := (hdone rfl).1
  omega

end

/-- `growproc` is exact just where the size does not shrink to 0 or below. -/
theorem growproc_exact {page : ℕ} {all : ℕ → Prop} (K : Kept (some page) c.dir none m all)
    (hF : Fills c.dir c.sz.toNat) (hs : c.sz.toNat ≤ kernBase) :
    Exact n c m ↔ 0 ≤ n ∨ c.sz = 0 ∨ 0 < c.sz.toNat+n.toInt := by
  constructor
  · intro h
    by_contra hc
    simp only [not_or,Int32.not_le,Int.not_lt] at hc
    obtain ⟨hn,hz,hle⟩ := hc
    rcases hle.lt_or_eq with hlt | heq
    · exact not_exact_below_zero hs hn hz hlt h
    · exact not_exact_to_zero K hF hs hn heq h
  · intro hn
    by_cases hlt : n < 0
    · by_cases hpos : 0 < c.sz.toNat+n.toInt
      · exact exact_of_neg K hF hs hlt hpos
      -- The size is 0, so that the new one is larger and `deallocuvm` returns 0.
      have hnp : ¬(0 : Int32) < n := Int32.not_lt.mpr (Int32.le_of_lt hlt)
      have hzero : c.sz = 0 := by
        rcases hn with hn | hn | hn
        · exact absurd hlt (Int32.not_lt.mpr hn)
        · exact hn
        · exact absurd hn hpos
      have hz : c.sz.toNat = 0 := by rw [hzero]; rfl
      refine ⟨false,{ c with dir := c.dir },m,?_,nofun,fun _ => ⟨rfl,fun _ => rfl,fun _ _ => rfl⟩⟩
      simp only [growproc,if_neg hnp,if_pos hlt,deallocuvm,hz,if_pos (Nat.zero_le _),Except.map]
      rfl
    by_cases hgt : 0 < n
    · exact exact_of_pos K hF hs hgt
    · have h1 := mt Int32.lt_iff_toInt_lt.mpr hlt
      have h2 := mt Int32.lt_iff_toInt_lt.mpr hgt
      simp only [Int32.toInt_zero] at h1 h2
      exact ⟨true,c,m,by simp only [growproc,if_neg hlt,if_neg hgt],fun _ => ⟨by omega,hF,fun _ _ => rfl⟩,nofun⟩

end

/-- The process of one page. -/
def oneSpace : Space := ⟨4096,nthPage 0,oneDir⟩

/-- It gets one page more. -/
theorem growproc_one_more : ∃ c' m', growproc 4096 oneSpace oneLeft = .ok (true,c',m') ∧ (c'.sz.toNat : ℤ) = 8192 ∧
    Fills c'.dir c'.sz.toNat := by
  obtain ⟨b,c',m',hr,ht,-⟩ := (growproc_exact (c := oneSpace) (n := 4096) oneDir_kept oneDir_fills (by decide)).mpr
    (.inl (by decide))
  have hdone : (growproc 4096 oneSpace oneLeft).map Prod.fst = .ok true := rfl
  rw [hr] at hdone
  cases hdone
  exact ⟨c',m',hr,(ht rfl).1,(ht rfl).2.1⟩

/-- Shrinking a process to nothing gives its page back, and returns -1 even so. -/
theorem growproc_to_nothing :
    Kept (some (nthPage 0)) oneSpace.dir none oneLeft (· ∈ [nthPage 0,nthPage 1,nthPage 2,nthPage 3]) ∧
      Fills oneSpace.dir oneSpace.sz.toNat ∧
      ∃ c' m', growproc (-4096) oneSpace oneLeft = .ok (false,c',m') ∧ c'.sz = 4096 ∧
        load oneSpace.dir oneLeft 0 = some 7 ∧ load c'.dir m' 0 = none := by
  refine ⟨oneDir_kept,oneDir_fills,?_⟩
  obtain ⟨E,m',hr,hfr⟩ := deallocuvm_spec (S := fun _ => True) oneDir_kept (show 4096 ≤ kernBase by decide) 0
    fun _ _ _ _ _ => trivial
  have hgone : ent E 0 = none := by
    rw [hfr.shrunk,if_pos (by decide)]
  refine ⟨{ oneSpace with dir := E },m',?_,rfl,?_,?_⟩
  · rw [growproc,if_neg (by decide),if_pos (by decide)]
    change Except.map _ (deallocuvm oneDir 4096 0 oneLeft) = _
    rw [hr]
    rfl
  · rw [load]
    change Option.map _ (ent oneDir 0) = _
    rw [ent_oneDir]
    rfl
  · rw [load]
    change Option.map _ (ent E 0) = _
    rw [hgone]
    rfl

end Xv6Threads.Mem
