import Xv6Threads.Mem.Copyout

/-! The load loop of `exec`: after each program header the new directory has the pages that the headers so far ask for. -/
namespace Xv6Threads.Mem
open Nat List Option UInt32
open Vm (pgSize kernBase word elfProgLoad npages lt_npages npages_le next_page)
open Vm.Loader (File proghdr Segment)

section
variable {page : Option ℕ} {D : Dir} {m m1 : Memory} {all : ℕ → Prop} {a w : ℕ} {e : Pte}

variable {v u sz : ℕ}

lemma loadBody_spec (f : File) (offset : UInt32) (hK : Kept page D none m1 all) (hC : Changed all m m1) (hlt : 4096*u < sz)
    (hsz : 4096*v+sz ≤ kernBase) (he : ent D (v+u) = some e) :
    ∃ m2, Kept page D none m2 all ∧ Changed all m m2 ∧
      (loadBody D f (4096*v) offset sz (4096*u,m1) = .ok (.inl (4096*(u+1),m2)) ∨
        loadBody D f (4096*v) offset sz (4096*u,m1) = .ok (.inr (false,m2))) := by
  unfold kernBase at hsz
  have hw : v+u < 2^19 := by omega
  have hva : (4096*v+4096*u)%word = 4096*(v+u) := by
    unfold word
    omega
  have hall : all e.addr := hK.own_all (p := .user (v+u)) (by simp only [own,if_pos hw,he,map_some])
  obtain ⟨t,ht⟩ : ∃ t, D (di (v+u)) = some t := by
    refine ne_none_iff_exists'.mp fun h => ?_
    rw [ent_of_none h] at he
    cases he
  have hpte : t.pte (ti (v+u)) = some e := by rw [← ent_of_tab (by omega) ht,he]
  unfold loadBody
  simp only [if_pos hlt,hva,walk_false,ht,map_some,pt_page,hpte,elim_some]
  generalize (if sz-4096*u < pgSize then sz-4096*u else pgSize) = n
  split_ifs
  · exact ⟨_,hK.put _ _,hC.trans (.put hall _),.inl (by rw [next_page (by omega)])⟩
  · exact ⟨_,hK.put _ _,hC.trans (.put hall _),.inr rfl⟩

/-- `loaduvm` of a segment whose pages are there. -/
lemma loaduvm_spec {addr : ℕ} (K : Kept page D none m all) (hal : addr%pgSize = 0) (hsz : addr+sz ≤ kernBase)
    (hp : ∀ w, addr ≤ 4096*w → 4096*w < addr+sz → (ent D w).isSome) (f : File) (offset : UInt32) :
    ∃ b m', loaduvm D f addr offset sz m = .ok (b,m') ∧ Kept page D none m' all ∧ Changed all m m' := by
  obtain ⟨v,rfl⟩ : ∃ v, addr = 4096*v := ⟨addr/4096,by unfold pgSize at hal; omega⟩
  obtain ⟨⟨b,m'⟩,hr,hK,hC⟩ := rounds_spec (f := loadBody D f (4096*v) offset sz) (g := fun s => (false,s.2))
    (I := fun s => ∃ u, s.1 = 4096*u ∧ Kept page D none s.2 all ∧ Changed all m s.2)
    (Q := fun r => Kept page D none r.2 all ∧ Changed all m r.2)
    (fun s => (sz+4095)/4096-s.1/4096) (by
      rintro ⟨_,m1⟩ ⟨u,rfl,hK,hC⟩
      by_cases hlt : 4096*u < sz
      · obtain ⟨e,he⟩ := isSome_iff_exists.mp (hp (v+u) (by omega) (by omega))
        obtain ⟨m2,hK2,hC2,hb | hb⟩ := loadBody_spec f offset hK hC hlt hsz he
        · exact .inl ⟨_,hb,⟨u+1,rfl,hK2,hC2⟩,by simp only; omega⟩
        · exact .inr ⟨_,hb,hK2,hC2⟩
      · exact .inr ⟨(true,m1),if_neg hlt,hK,hC⟩)
    (s := (0,m)) (k := sz/pgSize+2) ⟨0,rfl,K,.refl m⟩ (by
      unfold pgSize
      simp only
      omega)
  exact ⟨b,m',by rw [loaduvm,if_neg (not_not.mpr hal),hr],hK,hC⟩

end

/-- The place of program header `i`. -/
def headerAt (f : File) : ℕ → UInt32
  | 0 => f.uint 28
  | i+1 => headerAt f i+32

/-- The loadable ones of the first `n` program headers. -/
def segments (f : File) : ℕ → List Segment
  | 0 => []
  | n+1 => segments f n ++ ((proghdr f (headerAt f n)).filter fun ph => ph.type = elfProgLoad).toList

/-- The largest `vaddr+memsz`. -/
def largest (segs : List Segment) : ℕ := (segs.map fun s => s.vaddr.toNat+s.memsz.toNat).foldl max 0

lemma largest_snoc (segs : List Segment) (s : Segment) :
    largest (segs ++ [s]) = max (largest segs) (s.vaddr.toNat+s.memsz.toNat) := by simp [largest]

/-- The load loop has done the first `n` headers; `K` has the mappings of the kernel. -/
structure Built (page : ℕ) (all : ℕ → Prop) (f : File) (K : Dir) (m0 : Memory) (n sz : ℕ) (D : Dir) (m : Memory) :
    Prop where
  kept : Kept (some page) D none m all
  changed : Changed all m0 m
  small : sz < kernBase
  fills : Fills D sz
  user : ∀ w e, w < 2^19 → ent D w = some e → e.flags = .user
  kernel : ∀ w, 2^19 ≤ w → ent D w = ent K w
  tabs : ∀ i, 512 ≤ i.val → D i = K i
  size : sz = largest (segments f n)

section
variable {page sz n : ℕ} {all : ℕ → Prop} {f : File} {K D E : Dir} {m0 m m1 : Memory}

section
variable (hB : Built page all f K m0 n sz D m)
include hB

lemma Built.grow {newsz : ℕ} (hs : newsz < kernBase)
    (hG : Grown (some page) all D m E m1 (npages sz) (npages newsz)) :
    Changed all m0 m1 ∧ Fills E (max sz newsz) ∧ (∀ w e, w < 2^19 → ent E w = some e → e.flags = .user) ∧
      (∀ w, 2^19 ≤ w → ent E w = ent K w) ∧ ∀ i, 512 ≤ i.val → E i = K i := by
  have hle := npages_le (le_of_lt hs)
  refine ⟨hB.changed.trans (hG.changed.mono fun _ hf => hB.kept.free_all hf),hG.fills hB.fills,
    fun w e hw he => ?_,fun w hw => (hG.old w (by omega)).trans (hB.kernel w hw),
    fun i hi => (hG.tabs i hi).trans (hB.tabs i hi)⟩
  by_cases hc : npages sz ≤ w ∧ w < npages newsz
  · obtain ⟨g,-,hg,-⟩ := hG.new w hc.1 hc.2
    rw [he] at hg
    cases hg
    rfl
  · rw [hG.old w hc] at he
    exact hB.user w e hw he

section
variable {ph : Segment} (hph : proghdr f (headerAt f n) = some ph)
include hph

lemma Built.skip
    (ht : ph.type ≠ elfProgLoad) : Built page all f K m0 (n+1) sz D m := by
  have hseg : segments f (n+1) = segments f n := by simp [segments,hph,ht,Option.filter]
  exact ⟨hB.kept,hB.changed,hB.small,hB.fills,hB.user,hB.kernel,hB.tabs,hseg ▸ hB.size⟩

lemma segment_spec
    (ht : ph.type = elfProgLoad) (hmem : ¬ph.memsz < ph.filesz) (htop : ¬ph.top < ph.vaddr.toNat) :
    (∃ z E m', segNext f ph n (headerAt f n) (allocuvm D sz ph.top m) = .ok (.inl (n+1,headerAt f (n+1),z,E,m')) ∧
      Built page all f K m0 (n+1) z E m') ∨
    ∃ z E m', segNext f ph n (headerAt f n) (allocuvm D sz ph.top m) = .ok (.inr (false,z,E,m')) ∧
      Kept (some page) E none m' all ∧ Changed all m0 m' := by
  have hsum : ph.top = ph.vaddr.toNat+ph.memsz.toNat := by
    have := ph.memsz.toNat_lt
    have := ph.vaddr.toNat_lt
    unfold Vm.Proghdr.top at htop ⊢
    rw [UInt32.toNat_add] at htop ⊢
    omega
  rw [lt_iff_toNat_lt] at hmem
  obtain ⟨r,E,m1,hr,⟨rfl,hU,-⟩ | ⟨hs,rfl,hG⟩⟩ := allocuvm_spec hB.kept ph.top fun w h1 h2 => hB.fills.none h1 h2
  · refine .inr ⟨0,E,m1,by rw [hr]; rfl,hU.kept,hB.changed.trans (hU.changed.mono fun f hf => ?_)⟩
    exact hB.kept.free_all hf
  obtain ⟨hC,hfill,huser,hker,htabs⟩ := hB.grow hs hG
  rw [hr,segNext]
  by_cases hz : max sz ph.top = 0
  · rw [if_pos hz]
    exact .inr ⟨_,_,_,rfl,hG.kept,hC⟩
  rw [if_neg hz]
  by_cases hal : ph.vaddr.toNat%pgSize ≠ 0
  · rw [if_pos hal]
    exact .inr ⟨_,_,_,rfl,hG.kept,hC⟩
  rw [if_neg hal]
  have hsmall : max sz ph.top < kernBase := by
    have := hB.small
    omega
  obtain ⟨b,m2,hload,hK2,hC2⟩ := loaduvm_spec (D := E) hG.kept (not_not.mp hal)
    (show ph.vaddr.toNat+ph.filesz.toNat ≤ kernBase by omega) (fun w h1 h2 => (hfill w (by unfold kernBase at hs; omega)).mpr
      (lt_npages.mpr (by omega))) f ph.off
  rw [hload]
  cases b with
  | false => exact .inr ⟨_,_,_,rfl,hK2,hC.trans hC2⟩
  | true =>
    have hseg : segments f (n+1) = segments f n ++ [ph] := by simp [segments,hph,ht,Option.filter]
    refine .inl ⟨_,_,_,rfl,hK2,hC.trans hC2,hsmall,hfill,huser,hker,htabs,?_⟩
    rw [hseg,largest_snoc,← hB.size,hsum]

end

lemma segBody_spec {phnum : ℕ} (hn : n < phnum) :
    (∃ z E m', segBody f phnum (n,headerAt f n,sz,D,m) = .ok (.inl (n+1,headerAt f (n+1),z,E,m')) ∧
      Built page all f K m0 (n+1) z E m') ∨
    ∃ z E m', segBody f phnum (n,headerAt f n,sz,D,m) = .ok (.inr (false,z,E,m')) ∧
      Kept (some page) E none m' all ∧ Changed all m0 m' := by
  unfold segBody
  simp only [if_pos hn]
  cases hph : proghdr f (headerAt f n) with
  | none => exact .inr ⟨_,_,_,rfl,hB.kept,hB.changed⟩
  | some ph =>
    simp only
    by_cases ht : ph.type ≠ elfProgLoad
    · rw [if_pos ht]
      exact .inl ⟨_,_,_,rfl,hB.skip hph ht⟩
    rw [if_neg ht]
    by_cases hmem : ph.memsz < ph.filesz
    · rw [if_pos hmem]
      exact .inr ⟨_,_,_,rfl,hB.kept,hB.changed⟩
    rw [if_neg hmem]
    by_cases htop : ph.top < ph.vaddr.toNat
    · rw [if_pos htop]
      exact .inr ⟨_,_,_,rfl,hB.kept,hB.changed⟩
    rw [if_neg htop]
    exact segment_spec hB hph (not_not.mp ht) hmem htop

end

/-- The load loop returns, and if it does not go to `bad` it has done all headers. -/
lemma loadAll_spec (hB : Built page all f K m0 0 0 K m) :
    ∃ b z E m', loadAll f K m = .ok (b,z,E,m') ∧ Kept (some page) E none m' all ∧ Changed all m0 m' ∧
      (b = true → Built page all f K m0 (f.ushort 44) z E m') ∧ (b = false → 0 < f.ushort 44) := by
  obtain ⟨⟨b,z,E,m'⟩,hr,hQ⟩ := rounds_spec (f := segBody f (f.ushort 44)) (g := fun s => (false,s.2.2))
    (I := fun s => s.1 ≤ f.ushort 44 ∧ s.2.1 = headerAt f s.1 ∧ Built page all f K m0 s.1 s.2.2.1 s.2.2.2.1 s.2.2.2.2)
    (Q := fun r => Kept (some page) r.2.2.1 none r.2.2.2 all ∧ Changed all m0 r.2.2.2 ∧
      (r.1 = true → Built page all f K m0 (f.ushort 44) r.2.1 r.2.2.1 r.2.2.2) ∧ (r.1 = false → 0 < f.ushort 44))
    (fun s => f.ushort 44-s.1) (by
      rintro ⟨n,off,sz,D,m1⟩ ⟨hn,hoff,hB⟩
      simp only at hn hoff hB
      subst hoff
      by_cases hlt : n < f.ushort 44
      · rcases segBody_spec hB hlt with ⟨z,E,m2,hr,hB2⟩ | ⟨z,E,m2,hr,hK,hC⟩
        · exact .inl ⟨_,hr,⟨hlt,rfl,hB2⟩,by simp only; omega⟩
        · exact .inr ⟨_,hr,hK,hC,nofun,fun _ => by omega⟩
      · obtain rfl : n = f.ushort 44 := by omega
        exact .inr ⟨_,if_neg hlt,hB.kept,hB.changed,fun _ => hB,nofun⟩)
    (s := (0,f.uint 28,0,K,m)) (k := f.ushort 44+1) ⟨zero_le _,rfl,hB⟩ (lt_succ_self _)
  exact ⟨b,z,E,m',hr,hQ⟩

end

end Xv6Threads.Mem
