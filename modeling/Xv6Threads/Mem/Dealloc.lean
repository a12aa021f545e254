import Xv6Threads.Mem.Grow

/-! `deallocuvm` and `freevm` of any directory, down to the calls of `kfree`: which pages, in which order, and each of
them once. -/
namespace Xv6Threads.Mem
open List Nat Tab
open Vm (pgSize kernBase pgRoundUp Panic npages lt_npages npages_mono npages_le pgRoundUp_page)

/-- One call of `kfree` for each page of the list. -/
def kfrees : List ℕ → Memory → Except Panic Memory
  | [],m => .ok m
  | p :: ps,m => (kfree p m).bind (kfrees ps)

/-- The pages of memory at the user pages that are present, from page `a` to page `b`. -/
def present (D : Dir) (a b : ℕ) : List ℕ := (List.range' a (b-a)).filterMap fun w => (ent D w).map Pte.addr

/-- The pages of the tables. -/
def tables (D : Dir) : List ℕ := (List.finRange 1024).filterMap fun i => (D i).map Tab.page

lemma kfrees_append (ps qs : List ℕ) (m : Memory) : kfrees (ps++qs) m = (kfrees ps m).bind (kfrees qs) := by
  induction ps generalizing m with
  | nil => rfl
  | cons p ps ih =>
    simp only [cons_append,kfrees]
    cases kfree p m with
    | error e => rfl
    | ok m => exact ih m

/-- If all are pages of the allocator they are all free afterwards, besides those that were. -/
lemma kfrees_valid {ps : List ℕ} (h : ∀ p ∈ ps, Valid p) (m : Memory) :
    ∃ m', kfrees ps m = .ok m' ∧ m'.free = ps.reverse++m.free := by
  induction ps generalizing m with
  | nil => exact ⟨m,rfl,rfl⟩
  | cons p ps ih =>
    obtain ⟨m',hr,hfree⟩ := ih (fun q hq => h q (mem_cons_of_mem p hq)) (m.give p)
    refine ⟨m',by simp only [kfrees,kfree_valid (h p mem_cons_self),Except.bind,hr],?_⟩
    rw [hfree,reverse_cons,append_assoc]
    rfl

section
variable {D E : Dir} {a b u v : ℕ}

lemma present_of_le (h : b ≤ a) : present D a b = [] := by simp [present,Nat.sub_eq_zero_of_le h]

lemma present_succ (h : v < b) : present D v b = ((ent D v).map Pte.addr).toList++present D (v+1) b := by
  obtain ⟨n,rfl⟩ := Nat.exists_eq_add_of_lt h
  rw [present,present,show v+n+1-v = n+1 by omega,show v+n+1-(v+1) = n by omega,range'_succ,filterMap_cons]
  cases (ent D v).map Pte.addr <;> rfl

lemma present_skip (hvu : v ≤ u) (hn : ∀ w, v ≤ w → w < u → ent D w = none) : present D v b = present D u b := by
  induction u, hvu using le_induction with
  | base => rfl
  | succ u hvu ih =>
    rw [ih fun w h1 h2 => hn w h1 (lt_succ_of_lt h2)]
    by_cases hub : u < b
    · rw [present_succ hub,hn u hvu (lt_succ_self u)]
      rfl
    · rw [present_of_le (by omega),present_of_le (by omega)]

lemma present_congr (h : ∀ w, a ≤ w → ent E w = ent D w) : present E a b = present D a b := by
  refine filterMap_congr fun w hw => ?_
  rw [h w (mem_range'_1.mp hw).1]

end

section
variable {D E : Dir} {oldsz newsz a u : ℕ}

/-- `E` is what `deallocuvm` has left of `D` when it has come from page `a` to page `u`. -/
structure Cleared (D E : Dir) (a u : ℕ) : Prop where
  shrunk : Shrunk D E a u
  pages : ∀ i, (E i).map Tab.page = (D i).map Tab.page

/-- The loop from page `u` on ends, so any bound that is large enough gives the same. -/
lemma dealloc_rounds (hs : oldsz ≤ kernBase) (hau : a ≤ u) (h : Cleared D E a (min u (npages oldsz))) :
    ∃ F, Cleared D F a (npages oldsz) ∧ ∀ stop k m, npages oldsz-u < k →
      rounds (deallocBody oldsz) stop k (E,4096*u,m) = (kfrees (present E u (npages oldsz)) m).map fun m' => (F,m') := by
  induction hd : npages oldsz-u using Nat.strong_induction_on generalizing E u with
  | h d ih =>
    by_cases hlt : 4096*u < oldsz
    · have hu := lt_npages.mpr hlt
      have hle := npages_le hs
      rw [min_eq_left (by omega)] at h
      rcases deallocBody_cases hs hlt E with ⟨v,huv,-,hn,hb⟩ | ⟨t,e,ht,he,hb⟩
      · obtain ⟨F,hF,hr⟩ := ih _ (by omega) (E := E) (u := v) (by omega)
          ⟨h.shrunk.skip (by omega) fun w h1 h2 => hn w h1 (by omega),h.pages⟩ rfl
        refine ⟨F,hF,fun stop k m hk => ?_⟩
        obtain ⟨k,rfl⟩ := Nat.exists_eq_add_of_lt hk
        rw [rounds_next (hb m),hr stop _ m (by omega),present_skip (le_of_lt huv) hn]
      · have hent := ent_setPte (show u < 2^20 by omega) ht none
        obtain ⟨F,hF,hr⟩ := ih _ (by omega) (E := setPte E (4096*u) t none) (u := u+1) (by omega)
          ⟨by rw [min_eq_left (by omega)]; exact h.shrunk.succ hau hent,
            fun i => (setPte_page ht none i).trans (h.pages i)⟩ rfl
        have hsame : present (setPte E (4096*u) t none) (u+1) (npages oldsz) = present E (u+1) (npages oldsz) :=
          present_congr fun w hw => by rw [hent,if_neg (by omega)]
        refine ⟨F,hF,fun stop k m hk => ?_⟩
        obtain ⟨k,rfl⟩ := Nat.exists_eq_add_of_lt hk
        have hm := hb m
        rw [present_succ hu,he]
        change _ = ((kfree e.addr m).bind (kfrees (present E (u+1) (npages oldsz)))).map _
        cases hf : kfree e.addr m with
        | error x =>
          rw [hf] at hm
          simp only [rounds,hm,Except.map,Except.bind]
        | ok m' =>
          rw [hf] at hm
          rw [rounds_next hm,hr stop _ m' (by omega),hsame]
          rfl
    · have hu := mt lt_npages.mp hlt
      rw [min_eq_right (by omega)] at h
      refine ⟨E,h,fun stop k m hk => ?_⟩
      obtain ⟨k,rfl⟩ := Nat.exists_eq_add_of_lt hk
      rw [rounds_return (show deallocBody oldsz (E,4096*u,m) = .ok (.inr (E,m)) from if_neg hlt),present_of_le (by omega)]
      rfl

/-- `deallocuvm` calls `kfree` for the pages that are present from the new size to the old one, in order, and clears their
entries. -/
lemma deallocuvm_eq (D : Dir) (hs : oldsz ≤ kernBase) (newsz : ℕ) :
    ∃ F, Cleared D F (npages newsz) (npages oldsz) ∧ ∀ m, deallocuvm D oldsz newsz m =
        (kfrees (present D (npages newsz) (npages oldsz)) m).map (fun m' => (min oldsz newsz,F,m')) ∧
      (newsz < oldsz → ∀ stop k, oldsz/pgSize+2 ≤ k → rounds (deallocBody oldsz) stop k (D,pgRoundUp newsz,m) =
        (kfrees (present D (npages newsz) (npages oldsz)) m).map fun m' => (F,m')) := by
  by_cases hle : oldsz ≤ newsz
  · have hp := npages_mono hle
    refine ⟨D,⟨fun w => by rw [if_neg (by omega)],fun _ => rfl⟩,fun m => ⟨?_,fun h => absurd hle (Nat.not_le_of_lt h)⟩⟩
    rw [present_of_le hp,min_eq_left hle,deallocuvm,if_pos hle]
    rfl
  · have hp := npages_mono (Nat.le_of_not_le hle)
    have hbound : npages oldsz-npages newsz < oldsz/pgSize+2 := by
      unfold pgSize npages
      omega
    obtain ⟨F,hF,hr⟩ := dealloc_rounds (D := D) (E := D) (a := npages newsz) (u := npages newsz) hs le_rfl
      ⟨fun w => by rw [if_neg (by omega)],fun _ => rfl⟩
    rw [← pgRoundUp_page (by omega)] at hr
    refine ⟨F,hF,fun m => ⟨?_,fun _ stop k hk => hr stop k m (lt_of_lt_of_le hbound hk)⟩⟩
    rw [deallocuvm,if_neg hle,hr _ _ m hbound,min_eq_right (by omega)]
    cases kfrees (present D (npages newsz) (npages oldsz)) m <;> rfl

lemma freeTabs_eq (is : List (Fin 1024)) (m : Memory) :
    freeTabs D is m = kfrees (is.filterMap fun i => (D i).map page) m := by
  induction is generalizing m with
  | nil => rfl
  | cons i is ih =>
    rw [freeTabs,filterMap_cons]
    cases D i with
    | none => exact ih m
    | some t =>
      change (kfree t.page m).bind (freeTabs D is) = (kfree t.page m).bind (kfrees _)
      rw [show freeTabs D is = _ from funext ih]

/-- `freevm` calls `kfree` for the user pages, the tables and the directory. -/
lemma freevm_eq (D : Dir) {page : ℕ} (h0 : page ≠ 0) (m : Memory) :
    freevm page D m = kfrees (present D 0 (2^19)++tables D++[page]) m := by
  obtain ⟨F,hF,hr⟩ := deallocuvm_eq D (le_refl kernBase) 0
  have hpages : npages 0 = 0 ∧ npages kernBase = 2^19 := by decide
  rw [hpages.1,hpages.2] at hr
  have htabs : tables D = (finRange 1024).filterMap fun i => (F i).map Tab.page :=
    filterMap_congr fun i _ => (hF.pages i).symm
  rw [kfrees_append,kfrees_append,htabs]
  simp only [freevm,if_neg h0,(hr m).1,bind,freeTabs_eq]
  cases kfrees (present D 0 (2^19)) m with
  | error e => rfl
  | ok m1 =>
    simp only [Except.map,Except.bind]
    cases kfrees ((finRange 1024).filterMap fun i => (F i).map Tab.page) m1 with
    | error e => rfl
    | ok m2 =>
      simp only [kfrees,Except.bind]
      cases kfree page m2 <;> rfl

/-- The loop of `deallocuvm` ends without wrapping: it goes up, never above `KERNBASE`, and passes over no page that is
present. It calls `kfree` once for each page present from `PGROUNDUP(newsz)` to `oldsz`, clears these entries and no
others, and leaves the tables where they are. So `freevm` calls `kfree` once for each user page, each table and the
directory. The calls succeed if they are for pages of the allocator. -/
theorem deallocuvm_exact (D : Dir) (hs : oldsz ≤ kernBase) (newsz : ℕ) :
    (newsz < oldsz → pgRoundUp newsz = 4096*npages newsz ∧ 4096*npages newsz ≤ kernBase) ∧
    (∀ E u m F a m', 4096*u < oldsz → deallocBody oldsz (E,4096*u,m) = .ok (.inl (F,a,m')) →
      ∃ v, a = 4096*v ∧ u < v ∧ a ≤ kernBase ∧ ∀ w, u < w → w < v → ent E w = none) ∧
    (∃ F, Cleared D F (npages newsz) (npages oldsz) ∧ ∀ m, deallocuvm D oldsz newsz m =
        (kfrees (present D (npages newsz) (npages oldsz)) m).map (fun m' => (min oldsz newsz,F,m')) ∧
      (newsz < oldsz → ∀ stop k, oldsz/pgSize+2 ≤ k → rounds (deallocBody oldsz) stop k (D,pgRoundUp newsz,m) =
        (kfrees (present D (npages newsz) (npages oldsz)) m).map fun m' => (F,m'))) ∧
    (∀ page m, page ≠ 0 → freevm page D m = kfrees (present D 0 (2^19)++tables D++[page]) m) ∧
    ∀ ps m, (∀ p ∈ ps, Valid p) → ∃ m', kfrees ps m = .ok m' ∧ m'.free = ps.reverse++m.free := by
  refine ⟨fun hlt => ⟨pgRoundUp_page (by omega),?_⟩,fun E u m F a m' hlt hb => ?_,deallocuvm_eq D hs newsz,
    fun page m h0 => freevm_eq D h0 m,fun ps m hv => kfrees_valid hv m⟩
  · have : npages newsz ≤ 2^19 := npages_le (by omega)
    unfold kernBase
    omega
  · rcases deallocBody_cases hs hlt E with ⟨v,huv,hv,hn,hE⟩ | ⟨t,e,-,-,hE⟩
    · rw [hE] at hb
      cases hb
      exact ⟨v,rfl,huv,by unfold kernBase; omega,fun w h1 h2 => hn w (Nat.le_of_lt h1) h2⟩
    · rw [hE] at hb
      cases hk : kfree e.addr m with
      | error x =>
        rw [hk] at hb
        cases hb
      | ok m1 =>
        rw [hk] at hb
        cases hb
        exact ⟨u+1,rfl,Nat.lt_succ_self u,by unfold kernBase at hs ⊢; omega,fun w h1 h2 => by omega⟩

end

/-- Two user pages, the first two. -/
def twoPages : Dir := fun i =>
  if i.val = 0 then some ⟨0x200000,fun j => if j.val < 2 then some ⟨0x201000+4096*j,.user⟩ else none⟩ else none

/-- No page is free. -/
def exhausted : Memory := ⟨[],fun _ => false,fun _ _ => 0⟩

/-- A process of two pages shrinks to one byte and loses the second page. -/
theorem deallocuvm_exact_second_page : ∃ E m, deallocuvm twoPages 8192 1 exhausted = .ok (1,E,m) ∧
    m.free = [0x202000] ∧ ent E 0 = some ⟨0x201000,.user⟩ ∧ ent E 1 = none := by
  obtain ⟨-,-,⟨F,hF,hr⟩,-,hv⟩ := deallocuvm_exact twoPages (show 8192 ≤ kernBase by decide) 1
  have hp : present twoPages (npages 1) (npages 8192) = [0x202000] := by decide
  obtain ⟨m,hm,hfree⟩ := hv [0x202000] exhausted fun p hp => by
    rw [mem_singleton.mp hp]
    exact ⟨by decide,by decide,by decide⟩
  refine ⟨F,m,?_,hfree,(hF.shrunk 0).trans (by decide),(hF.shrunk 1).trans (by decide)⟩
  rw [(hr exhausted).1,hp,hm]
  rfl

end Xv6Threads.Mem
