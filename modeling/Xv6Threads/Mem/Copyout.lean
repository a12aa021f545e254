import Xv6Threads.Mem.Copy
import Xv6Threads.Mem.Exec

/-! `copyout` stores through the user's pages, byte by byte, as long as every page of the range has a page table. -/
namespace Xv6Threads.Mem
open List Option Nat Disk Function
open Vm (pgSize kernBase word pgRoundDown phystop kmap)
open Vm.Loader (p2v Gap)

/-- The page and the offset at address `a`, if the user has it. -/
def phys (D : Dir) (a : ℕ) : Option (ℕ × ℕ) :=
  (ent D (a/4096)).bind fun e => if e.flags.u then some (e.addr,a%4096) else none

/-- The kernel can write to every page that the allocator has, at its own address. -/
def Direct (c : Running) : Prop :=
  ∀ f, Valid f → ∃ e, ent c.dir ((f+kernBase)/4096) = some e ∧ e.addr = f ∧ e.flags.w = true

/-- The pages that the user has are from the allocator, all different, and have no data of the kernel. -/
structure Proper (c : Running) (D : Dir) : Prop where
  valid : ∀ {w e}, ent D w = some e → e.flags.u = true → Valid e.addr ∧ c.sys e.addr = false
  inj : ∀ {w w' e e'}, ent D w = some e → ent D w' = some e' → e.flags.u = true → e'.flags.u = true →
    e.addr = e'.addr → w = w'

section
variable {D : Dir} {a a' f o : ℕ} {c : Running}

lemma phys_eq_some : phys D a = some (f,o) ↔
    ∃ e, ent D (a/4096) = some e ∧ e.flags.u = true ∧ e.addr = f ∧ a%4096 = o := by
  unfold phys
  cases ent D (a/4096) with
  | none => simp
  | some e => by_cases hu : e.flags.u = true <;> simp [hu]

lemma Proper.phys_inj (h : Proper c D) (ha : phys D a = some (f,o)) (ha' : phys D a' = some (f,o)) : a = a' := by
  obtain ⟨e,he,hu,hf,ho⟩ := phys_eq_some.mp ha
  obtain ⟨e',he',hu',hf',ho'⟩ := phys_eq_some.mp ha'
  have := h.inj he he' hu hu' (hf.trans hf'.symm)
  omega

end

section
variable {c : Running} {D : Dir} {m m1 m2 : Memory} {va va' : ℕ} {buf rest : List UInt8}

lemma pgRoundDown_eq (a : ℕ) : pgRoundDown a = 4096*(a/4096) := by
  unfold pgRoundDown pgSize
  omega

lemma uva2ka_tab (hva : va < word) (ht : D (di (va/4096)) ≠ none) :
    uva2ka c D (4096*(va/4096)) m = .ok ((ent D (va/4096)).elim 0 fun e => if e.flags.u then p2v e.addr else 0) := by
  obtain ⟨t,ht⟩ := ne_none_iff_exists'.mp ht
  have hv : va/4096 < 2^20 := by
    unfold word at hva
    omega
  unfold uva2ka
  rw [walk_false,ht,ent_of_tab hv ht,pt_page]
  rfl

lemma p2v_valid {f : ℕ} (h : Valid f) : p2v f = f+kernBase ∧ p2v f ≠ 0 := by
  have := h.top
  unfold p2v word kernBase
  unfold phystop at this
  omega

lemma uva2ka_null (va : ℕ) {e : Pte} (ht : D (di (va/4096)) = none) (he : ent c.dir 0 = some e) :
    uva2ka c D (4096*(va/4096)) m = .ok (if getInt (m.page e.addr) 0%2 = 0 ∨ getInt (m.page e.addr) 0/4%2 = 0 then 0
        else p2v (4096*(getInt (m.page e.addr) 0/4096))) := by
  unfold uva2ka
  rw [walk_false,ht,map_none]
  simp only
  rw [he]

lemma outBody_zero (hr : rest ≠ []) (hka : uva2ka c D (4096*(va/4096)) m = .ok 0) :
    outBody c D (va,rest,m) = .ok (.inr (false,m)) := by
  unfold outBody
  simp only [if_pos (length_pos_iff.mpr hr),pgRoundDown_eq,hka,if_true]

lemma outBody_absent (hva : va < word) (ht : D (di (va/4096)) ≠ none) (hp : phys D va = none)
    (hr : rest ≠ []) : outBody c D (va,rest,m) = .ok (.inr (false,m)) := by
  refine outBody_zero hr ?_
  rw [uva2ka_tab hva ht]
  unfold phys at hp
  cases he : ent D (va/4096) with
  | none => rfl
  | some e =>
    rw [he] at hp
    have hu : e.flags.u = false := by simpa using hp
    simp [hu]

lemma blit_self (m : Memory) (f o i : ℕ) (bs : List UInt8) :
    (m.blit f o bs).page f i = if o ≤ i ∧ i < o+bs.length then bs.getD (i-o) 0 else m.page f i := by
  simp only [Memory.blit,Memory.put,update_self]

lemma memmove_ok {ka o : ℕ} {e : Pte} (he : ent c.dir (ka/pgSize) = some e) (hw : e.flags.w = true)
    (hs : c.sys e.addr = false) (bs : List UInt8) : memmove c ka o bs m = .ok (m.blit e.addr o bs) := by
  unfold memmove
  rw [he]
  simp only [hw,Bool.true_eq_false,if_false,hs,Bool.false_eq_true]

lemma outBody_store (va : ℕ) {ka : ℕ} {e : Pte} (hr : rest ≠ []) (hka : uva2ka c D (4096*(va/4096)) m = .ok ka)
    (hne : ka ≠ 0) (he : ent c.dir (ka/pgSize) = some e) (hw : e.flags.w = true) (hs : c.sys e.addr = false) :
    outBody c D (va,rest,m) = .ok (.inl ((4096*(va/4096)+pgSize)%word,rest.drop (min (4096-va%4096) rest.length),
        m.blit e.addr (va%4096) (rest.take (min (4096-va%4096) rest.length)))) := by
  have hoff : va-4096*(va/4096) = va%4096 := by omega
  unfold outBody
  simp only [if_pos (length_pos_iff.mpr hr),pgRoundDown_eq,hka,if_neg hne,hoff]
  rw [memmove_ok he hw hs]
  rfl

lemma outBody_present (hc : Direct c) (hD : Proper c D) (hva : va < word) (ht : D (di (va/4096)) ≠ none) {f o : ℕ}
    (hp : phys D va = some (f,o)) (hr : rest ≠ []) : outBody c D (va,rest,m) =
      .ok (.inl ((4096*(va/4096)+pgSize)%word,rest.drop (min (4096-o) rest.length),
        m.blit f o (rest.take (min (4096-o) rest.length)))) := by
  obtain ⟨e,he,hu,hf,ho⟩ := phys_eq_some.mp hp
  obtain ⟨hval,hsys⟩ := hD.valid he hu
  obtain ⟨hka,hne⟩ := p2v_valid hval
  obtain ⟨k,hk,hkf,hkw⟩ := hc e.addr hval
  rw [← hka] at hk
  rw [outBody_store va hr (by rw [uva2ka_tab hva ht,he,elim_some,if_pos hu]) hne hk hkw (by rw [hkf,hsys]),hkf,hf,ho]

end

/-- `j` bytes of `buf` have been copied to `va` on. -/
structure Stored (D : Dir) (va : ℕ) (buf : List UInt8) (m m' : Memory) (j : ℕ) : Prop where
  le : j ≤ buf.length
  byte : ∀ i < j, ∃ f o, phys D ((va+i)%word) = some (f,o) ∧ m'.page f o = buf.getD i 0
  frame : ∀ f o, (∀ i < j, phys D ((va+i)%word) ≠ some (f,o)) → m'.page f o = m.page f o
  free : m'.free = m.free
  deny : m'.deny = m.deny

section
variable {c : Running} {D : Dir} {m m1 : Memory} {va j n f o : ℕ} {buf : List UInt8}

lemma Stored.start (D : Dir) (va : ℕ) (buf : List UInt8) (m : Memory) : Stored D va buf m m 0 :=
  ⟨zero_le _,nofun,fun _ _ _ => rfl,rfl,rfl⟩

lemma Stored.next (hD : Proper c D) (h : Stored D va buf m m1 j) (hlen : buf.length < word)
    (hp : phys D ((va+j)%word) = some (f,o)) (hn : n ≤ 4096-o) (hjn : j+n ≤ buf.length) :
    Stored D va buf m (m1.blit f o ((buf.drop j).take n)) (j+n) := by
  unfold word at hlen hp
  obtain ⟨e,he,hu,hf,ho⟩ := phys_eq_some.mp hp
  have hbs : ((buf.drop j).take n).length = n := by simp; omega
  -- The addresses of this round are in the page of its first one.
  have hin : ∀ k < n, (va+(j+k))%2^32 = (va+j)%2^32+k ∧ ((va+(j+k))%2^32)/4096 = ((va+j)%2^32)/4096 ∧
      ((va+(j+k))%2^32)%4096 = o+k := fun k hk => by omega
  have hphys : ∀ k < n, phys D ((va+(j+k))%2^32) = some (f,o+k) := fun k hk => by
    obtain ⟨-,h2,h3⟩ := hin k hk
    exact phys_eq_some.mpr ⟨e,by rw [h2,he],hu,hf,h3⟩
  have hput : ∀ g i, (m1.blit f o ((buf.drop j).take n)).page g i =
      if g = f ∧ o ≤ i ∧ i < o+n then buf.getD (j+(i-o)) 0 else m1.page g i := fun g i => by
    by_cases hg : g = f
    · rw [hg,blit_self,hbs]
      by_cases hi : o ≤ i ∧ i < o+n
      · rw [if_pos hi,if_pos ⟨rfl,hi⟩]
        simp only [getD_eq_getElem?_getD,getElem?_take,getElem?_drop]
        rw [if_pos (by omega)]
      · rw [if_neg hi,if_neg (fun h => hi h.2)]
    · rw [if_neg (fun h => hg h.1)]
      exact congrFun (update_of_ne hg ..) i
  refine ⟨hjn,fun i hi => ?_,fun g i hg => ?_,h.free,h.deny⟩
  · by_cases hij : i < j
    · obtain ⟨g,o',hg,hb⟩ := h.byte i hij
      refine ⟨g,o',hg,?_⟩
      rw [hput,if_neg,hb]
      rintro ⟨rfl,h1,h2⟩
      -- The place would be that of two addresses.
      have hk := hphys (o'-o) (by omega)
      rw [show o+(o'-o) = o' by omega] at hk
      have := hD.phys_inj hg hk
      unfold word at this
      omega
    · refine ⟨f,o+(i-j),?_,?_⟩
      · have := hphys (i-j) (by omega)
        rwa [show j+(i-j) = i by omega] at this
      · rw [hput,if_pos ⟨rfl,by omega,by omega⟩]
        congr 1
        omega
  · rw [hput,if_neg]
    · exact h.frame g i fun k hk => hg k (by omega)
    · rintro ⟨rfl,h1,h2⟩
      refine hg (j+(i-o)) (by omega) ?_
      have := hphys (i-o) (by omega)
      rwa [show o+(i-o) = i by omega] at this

/-- The state of the loop after `j` bytes. -/
structure After (D : Dir) (va : ℕ) (buf : List UInt8) (m : Memory) (s : ℕ × List UInt8 × Memory) (j : ℕ) : Prop where
  stored : Stored D va buf m s.2.2 j
  rest : s.2.1 = buf.drop j
  addr : j < buf.length → s.1 = (va+j)%word

lemma After.start (D : Dir) (buf : List UInt8) (m : Memory) (hva : va < word) : After D va buf m (va,buf,m) 0 :=
  ⟨.start D va buf m,rfl,fun _ => by rw [add_zero,mod_eq_of_lt hva]⟩

/-- A round stores what goes into the page of its first byte. -/
lemma After.next {s : ℕ × List UInt8 × Memory} (hc : Direct c) (hD : Proper c D) (hlen : buf.length < word)
    (h : After D va buf m s j) (hj : j < buf.length) (ht : D (di ((va+j)%word/4096)) ≠ none)
    (hp : phys D ((va+j)%word) = some (f,o)) :
    ∃ t, outBody c D s = .ok (.inl t) ∧ After D va buf m t (j+min (4096-o) (buf.length-j)) ∧ o = (va+j)%word%4096 := by
  obtain ⟨a,rest,m1⟩ := s
  obtain ⟨hS,rfl,ha⟩ := h
  obtain rfl := ha hj
  obtain ⟨e,-,-,-,ho⟩ := phys_eq_some.mp hp
  have hne : buf.drop j ≠ [] := fun h => by
    have := drop_eq_nil_iff.mp h
    omega
  refine ⟨_,outBody_present hc hD (mod_lt _ (by decide)) ht hp hne,?_,ho.symm⟩
  rw [length_drop]
  refine ⟨hS.next hD hlen hp (by omega) (by omega),drop_drop,fun h => ?_⟩
  simp only
  unfold word at ho ⊢
  unfold pgSize
  omega

/-- The first page of the range that the user does not have, if there is one, has a page table. -/
def Tabled (D : Dir) (va n : ℕ) : Prop :=
  ∀ i < n, (∀ j < i, phys D ((va+j)%word) ≠ none) → D (di ((va+i)%word/4096)) ≠ none

lemma After.table {s : ℕ × List UInt8 × Memory} (ht : Tabled D va buf.length) (h : After D va buf m s j)
    (hj : j < buf.length) : D (di ((va+j)%word/4096)) ≠ none :=
  ht j hj fun i hi hnone => by
    obtain ⟨f,o,hp,-⟩ := h.stored.byte i hi
    rw [hnone] at hp
    cases hp

/-- `copyout` stores all bytes, or those before the first page that the user does not have. -/
lemma copyout_spec (va : ℕ) (buf : List UInt8) (m : Memory) (hc : Direct c) (hD : Proper c D)
    (hlen : buf.length < word) (hva : va < word) (ht : Tabled D va buf.length) :
    ∃ b m' k, copyout c D va buf m = .ok (b,m') ∧ Stored D va buf m m' k ∧ (b = true → k = buf.length) ∧
      (b = false → k < buf.length ∧ phys D ((va+k)%word) = none) := by
  obtain ⟨⟨b,m'⟩,hr,k,hS,hb,hb'⟩ := rounds_spec (f := outBody c D) (g := fun s => (false,s.2.2))
    (I := fun s => ∃ j, After D va buf m s j)
    (Q := fun r => ∃ k, Stored D va buf m r.2 k ∧ (r.1 = true → k = buf.length) ∧
      (r.1 = false → k < buf.length ∧ phys D ((va+k)%word) = none))
    (fun s => if s.2.1 = [] then 0 else (s.1%4096+s.2.1.length+4095)/4096) (by
      rintro ⟨a,rest,m1⟩ ⟨j,hA⟩
      have hle := hA.stored.le
      obtain rfl := hA.rest
      by_cases hj : j < buf.length
      · have hne : buf.drop j ≠ [] := fun h => by
          have := drop_eq_nil_iff.mp h
          omega
        cases hp : phys D ((va+j)%word) with
        | none =>
          obtain rfl := hA.addr hj
          exact .inr ⟨_,outBody_absent (mod_lt _ (by decide)) (hA.table ht hj) hp hne,j,hA.stored,nofun,fun _ => ⟨hj,hp⟩⟩
        | some fo =>
          obtain ⟨t,hstep,hA',ho⟩ := hA.next hc hD hlen hj (hA.table ht hj) hp
          refine .inl ⟨t,hstep,⟨_,hA'⟩,?_⟩
          have hta := hA'.addr
          rw [hA'.rest,hA.addr hj]
          simp only [if_neg hne,length_drop]
          split_ifs with hend
          · omega
          · have hlt := Nat.lt_of_not_le fun h => hend (drop_eq_nil_iff.mpr h)
            rw [hta hlt]
            unfold word at ho ⊢
            omega
      · obtain rfl : j = buf.length := by omega
        refine .inr ⟨(true,m1),?_,buf.length,hA.stored,fun _ => rfl,nofun⟩
        unfold outBody
        simp)
    (s := (va,buf,m)) (k := buf.length/pgSize+3) ⟨0,.start D buf m hva⟩ (by
      simp only
      unfold pgSize
      split_ifs <;> omega)
  exact ⟨b,m',k,hr,hS,hb,hb'⟩

/-- Some round of `copyout` takes the entry of a page that has no page table. -/
inductive NullEntry (c : Running) (D : Dir) : ℕ × List UInt8 × Memory → Prop
  | now {va : ℕ} {rest : List UInt8} {m : Memory} : rest ≠ [] → D (di (va/4096)) = none → NullEntry c D (va,rest,m)
  | later {s t : ℕ × List UInt8 × Memory} : outBody c D s = .ok (.inl t) → NullEntry c D t → NullEntry c D s

lemma not_nullEntry {s : ℕ × List UInt8 × Memory} (hc : Direct c) (hD : Proper c D) (hlen : buf.length < word)
    (ht : Tabled D va buf.length) (hA : After D va buf m s j) : ¬NullEntry c D s := by
  intro h
  induction h generalizing j with
  | now hne hnone =>
    have hj : j < buf.length := Nat.lt_of_not_le fun h => hne (hA.rest.trans (drop_eq_nil_iff.mpr h))
    obtain rfl := hA.addr hj
    exact hA.table ht hj hnone
  | @later s t hstep _ ih =>
    have hj : j < buf.length := Nat.lt_of_not_le fun h => by
      have hnil := hA.rest.trans (drop_eq_nil_iff.mpr h)
      obtain ⟨a,rest,m1⟩ := s
      obtain rfl : rest = [] := hnil
      simp [outBody] at hstep
    cases hp : phys D ((va+j)%word) with
    | none =>
      obtain ⟨a,rest,m1⟩ := s
      obtain rfl := hA.rest
      obtain rfl := hA.addr hj
      rw [outBody_absent (mod_lt _ (by decide)) (hA.table ht hj) hp fun h => absurd (drop_eq_nil_iff.mp h) (by omega)] at hstep
      cases hstep
    | some fo =>
      obtain ⟨t',hstep',hA',-⟩ := hA.next hc hD hlen hj (hA.table ht hj) hp
      cases hstep.symm.trans hstep'
      exact ih hA'

/-- The loop gets to the first page that the user does not have. -/
lemma nullEntry_of_missing {i : ℕ} (hc : Direct c) (hD : Proper c D) (hlen : buf.length < word) (hi : i < buf.length)
    (hbefore : ∀ j < i, phys D ((va+j)%word) ≠ none) (hnone : D (di ((va+i)%word/4096)) = none)
    {s : ℕ × List UInt8 × Memory} (hj : j ≤ i) (hA : After D va buf m s j) : NullEntry c D s := by
  induction hk : i-j using Nat.strongRecOn generalizing j s with
  | ind k ih =>
    subst hk
    by_cases htab : D (di ((va+j)%word/4096)) = none
    · obtain ⟨a,rest,m1⟩ := s
      obtain rfl := hA.addr (by omega)
      obtain rfl := hA.rest
      exact .now (fun h => absurd (drop_eq_nil_iff.mp h) (by omega)) htab
    · have hji : j < i := Nat.lt_of_le_of_ne hj fun h => htab (h ▸ hnone)
      obtain ⟨⟨f,o⟩,hp⟩ := ne_none_iff_exists'.mp (hbefore j hji)
      obtain ⟨t,hstep,hA',ho⟩ := hA.next hc hD hlen (by omega) htab hp
      -- The addresses of the round have one page table.
      have hend : j+min (4096-o) (buf.length-j) ≤ i := by
        by_contra hlt
        refine htab ?_
        rw [← hnone]
        congr 2
        unfold word at ho hlen ⊢
        omega
      exact .later hstep (ih _ (by omega) hend hA' rfl)

/-- `copyout` never takes the entry of a page without a page table, and stores exactly the bytes, or a beginning of them,
which is when some page is not the user's: just if the first page of the range that the user does not have has a page
table. -/
theorem copyout_exact (hc : Direct c) (hD : Proper c D) (hlen : buf.length < word) (hva : va < word) :
    (¬NullEntry c D (va,buf,m) ∧ ∃ b m' k, copyout c D va buf m = .ok (b,m') ∧ k ≤ buf.length ∧
      (∀ i < k, ∃ f o, phys D ((va+i)%word) = some (f,o) ∧ m'.page f o = buf.getD i 0) ∧
      (∀ f o, (∀ i < k, phys D ((va+i)%word) ≠ some (f,o)) → m'.page f o = m.page f o) ∧ m'.free = m.free ∧
      (b = true → k = buf.length) ∧ (b = false ↔ ∃ i < buf.length, phys D ((va+i)%word) = none)) ↔
    ∀ i < buf.length, (∀ j < i, phys D ((va+j)%word) ≠ none) → D (di ((va+i)%word/4096)) ≠ none := by
  refine ⟨fun h i hi hbefore hnone => h.1 ?_,fun ht => ⟨not_nullEntry hc hD hlen ht (.start D buf m hva),?_⟩⟩
  · exact nullEntry_of_missing hc hD hlen hi hbefore hnone (Nat.zero_le i) (.start D buf m hva)
  · obtain ⟨b,m',k,hr,hS,ht,hf⟩ := copyout_spec va buf m hc hD hlen hva ht
    refine ⟨b,m',k,hr,hS.le,hS.byte,hS.frame,hS.free,ht,fun h => ⟨k,hf h⟩,fun ⟨i,hi,hn⟩ => ?_⟩
    by_contra hb
    have := ht (Bool.not_eq_false _ |>.mp hb)
    obtain ⟨f,o,hp,-⟩ := hS.byte i (by omega)
    rw [hn] at hp
    cases hp

end

section

/-- `D` below the kernel, and from there on what `setupkvm` maps, with its page tables at `tab`. -/
def withKernel (tab : ℕ → ℕ) (D : Dir) : Dir := fun i =>
  if 512 ≤ i.val then
    if Gap (2^22*i.val) then none else some ⟨tab i.val,fun j => kent kmap (1024*i.val+j.val)⟩
  else D i

lemma ent_withKernel (tab : ℕ → ℕ) (D : Dir) (w : ℕ) :
    ent (withKernel tab D) w = if w < 2^19 then ent D w else kent kmap w := by
  unfold ent withKernel di ti
  by_cases hw : w < 2^20
  · by_cases hk : w < 2^19
    · rw [if_pos hw,if_neg (show ¬512 ≤ w/1024%1024 by omega),if_pos hk,if_pos hw]
    · rw [if_pos hw,if_pos (show 512 ≤ w/1024%1024 by omega),if_neg hk]
      split_ifs with hg
      · simp only [Gap,kernBase,phystop,Vm.devSpace] at hg
        exact (kent_gap (by omega) (by omega)).symm
      · simp only [bind_some]
        rw [show 1024*(w/1024%1024)+w%1024 = w by omega]
  · rw [if_neg hw,if_neg (by omega)]
    cases he : kent kmap w with
    | none => rfl
    | some e => exact absurd (kent_kernel he).2.1 hw

/-- The kernel has the memory of the allocator at its own address. -/
lemma kent_valid {f : ℕ} (hf : Valid f) : kent kmap ((f+kernBase)/4096) = some ⟨f,⟨true,false,0⟩⟩ := by
  have h1 := hf.aligned
  have h2 := hf.kernel
  have h3 := hf.top
  unfold pgSize at h1
  unfold endAddr at h2
  unfold phystop at h3
  have hw : 4096*((f+kernBase)/4096) = f+kernBase := by
    unfold kernBase
    omega
  unfold kernBase at h2 hw
  have hfind : kmap.find? (fun k => decide (k.virt ≤ 4096*((f+2147483648)/4096) ∧ 4096*((f+2147483648)/4096) < k.virt+k.size)) =
      some ⟨0x8010a000,0x10a000,phystop,⟨true,false⟩⟩ := by
    rw [hw,kmap,find?_cons_of_neg,find?_cons_of_neg,find?_cons_of_pos]
    · rfl
    all_goals simp [Vm.Kmap.size,kernBase,Vm.extMem,Vm.dataAddr,phystop,word]; omega
  unfold kent kernBase
  rw [hfind,map_some,hw]
  refine congrArg some (congrArg (Pte.mk · ⟨true,false,0⟩) ?_)
  simp only [word]
  omega

lemma withKernel_direct (tab : ℕ → ℕ) (D : Dir) (sys : ℕ → Bool) : Direct ⟨withKernel tab D,sys⟩ := by
  intro f hf
  refine ⟨_,(ent_withKernel tab D _).trans ((if_neg ?_).trans (kent_valid hf)),rfl,rfl⟩
  unfold kernBase
  omega

/-- The process of one page, running. -/
def oneRunning : Running := ⟨withKernel (fun _ => 0) oneDir,fun _ => false⟩

lemma oneRunning_proper : Proper oneRunning oneDir := by
  have hent : ∀ {w e}, ent oneDir w = some e → w = 0 ∧ e = ⟨nthPage 2,.user⟩ := fun {w e} he => by
    rw [ent_oneDir] at he
    split_ifs at he with hw
    exact ⟨hw,(some.inj he).symm⟩
  refine ⟨fun he _ => ⟨?_,rfl⟩,fun he he' _ _ _ => (hent he).1.trans (hent he').1.symm⟩
  rw [(hent he).2]
  exact ⟨by decide,by decide,by decide⟩

lemma phys_oneDir (a : ℕ) : phys oneDir a = if a < 4096 then some (nthPage 2,a) else none := by
  unfold phys
  rw [ent_oneDir]
  by_cases ha : a < 4096
  · rw [if_pos (by omega),if_pos ha,mod_eq_of_lt ha]
    rfl
  · rw [if_neg (by omega),if_neg ha]
    rfl

/-- The process of one page gets the two bytes that are in it, of three, and `copyout` fails. -/
theorem copyout_two_bytes : ∃ m', copyout oneRunning oneDir 4094 [1,2,3] oneLeft = .ok (false,m') ∧
    m'.page (nthPage 2) 4094 = 1 ∧ m'.page (nthPage 2) 4095 = 2 := by
  obtain ⟨-,b,m',k,hr,-,-,-,-,-,hfail⟩ := (copyout_exact (m := oneLeft) (withKernel_direct _ oneDir _) oneRunning_proper
    (show ([1,2,3] : List UInt8).length < word by decide) (show 4094 < word by decide)).mpr
      fun i hi _ => (by decide +kernel : ∀ i < 3, oneDir (di ((4094+i)%word/4096)) ≠ none) i hi
  obtain rfl : b = false := hfail.mpr ⟨2,by decide,(phys_oneDir _).trans (if_neg (by decide))⟩
  have hbytes : (copyout oneRunning oneDir 4094 [1,2,3] oneLeft).toOption.map
      (fun r => (r.2.page (nthPage 2) 4094,r.2.page (nthPage 2) 4095)) = some (1,2) := by decide +kernel
  rw [oneRunning,hr] at hbytes
  exact ⟨m',hr,Prod.mk.inj (some.inj hbytes)⟩

/-- There is no page table for this address, and the word that the null pointer reads looks like an entry: `copyout`
returns 0 and has stored the byte in a page that is not the user's. -/
theorem copyout_through_null : phys oneDir 0x40000000 = none ∧
    ∃ m', copyout oneRunning oneDir 0x40000000 [1] oneLeft = .ok (true,m') ∧
      oneLeft.page 0x07070000 0 = 7 ∧ m'.page 0x07070000 0 = 1 := by
  have htab : oneDir (di (0x40000000/4096)) = none := by decide +kernel
  have hka : uva2ka oneRunning oneDir (4096*(0x40000000/4096)) oneLeft = .ok 0x87070000 := by
    rw [uva2ka_null _ (e := ⟨nthPage 2,.user⟩) htab ((ent_withKernel (fun _ => 0) oneDir 0).trans (ent_oneDir 0))]
    rfl
  have hstep : outBody oneRunning oneDir (0x40000000,[1],oneLeft) =
      .ok (.inl (0x40001000,[],oneLeft.blit 0x07070000 0 [1])) :=
    outBody_store 0x40000000 (by decide) hka (by decide)
      ((ent_withKernel (fun _ => 0) oneDir 0x87070).trans (kent_valid (f := 0x07070000) ⟨by decide,by decide,by decide⟩)) rfl rfl
  refine ⟨?_,oneLeft.blit 0x07070000 0 [1],?_,rfl,rfl⟩
  · simp only [phys,ent_oneDir]
    rfl
  · exact (rounds_next hstep 2).trans (rounds_return rfl 1)

end

end Xv6Threads.Mem
