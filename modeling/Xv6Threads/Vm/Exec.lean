import Xv6Threads.Vm.Image

/-! The address spaces that `exec` and `userinit` build. The reads of the file and the copies to
the new stack do not change the page table; when one fails the directory is freed. -/
namespace Xv6Threads.Vm
open Nat

structure Proghdr where
  type : UInt32
  vaddr : UInt32
  filesz : UInt32
  memsz : UInt32

/-- `ph.vaddr + ph.memsz` -/
def Proghdr.top (ph : Proghdr) : ℕ := (ph.vaddr+ph.memsz).toNat

def elfProgLoad : UInt32 := 1

/-- The end of the round for a segment, after `allocuvm`; no size is `goto bad`. -/
def loadNext (ph : Proghdr) (phs : List Proghdr) :
    Except Panic (ℕ × Dir × Heap) → Except Panic (List Proghdr × ℕ × Dir × Heap ⊕ Option ℕ × Dir × Heap)
  | .error e => .error e
  | .ok (0,D,h) => .ok (.inr (none,D,h))
  | .ok (sz,D,h) =>
    if ph.vaddr.toNat%pgSize ≠ 0 then .ok (.inr (none,D,h))
    else (loaduvm D ph.vaddr.toNat ph.filesz.toNat h).map (fun _ => .inl (phs,sz,D,h))

/-- One round of the loop of `exec` over the program headers, with the size so far. -/
def segBody : List Proghdr × ℕ × Dir × Heap →
    Except Panic (List Proghdr × ℕ × Dir × Heap ⊕ Option ℕ × Dir × Heap)
  | ([],sz,D,h) => .ok (.inr (some sz,D,h))
  | (ph :: phs,sz,D,h) =>
    if ph.type ≠ elfProgLoad then .ok (.inl (phs,sz,D,h))
    else if ph.memsz < ph.filesz then .ok (.inr (none,D,h))
    else if ph.top < ph.vaddr.toNat then .ok (.inr (none,D,h))
    else loadNext ph phs (allocuvm D sz ph.top h)

/-- The stack guard, once the stack has been added. -/
def guardNext (page : ℕ) : Except Panic (ℕ × Dir × Heap) → Except Panic (Option (ℕ × Dir) × Heap)
  | .error e => .error e
  | .ok (0,D,h) => bad page D h
  | .ok (sz,D,h) => (clearpteu D ((sz+word-2*pgSize)%word) h).map (fun D => (some (sz,D),h))

/-- The two pages above the program. -/
def stackNext (page : ℕ) : Except Panic (Option ℕ × Dir × Heap) → Except Panic (Option (ℕ × Dir) × Heap)
  | .error e => .error e
  | .ok (none,D,h) => bad page D h
  | .ok (some sz,D,h) => guardNext page (allocuvm D (pgRoundUp sz) ((pgRoundUp sz+2*pgSize)%word) h)

/-- The size and the directory that `exec` builds from program headers. -/
def execImage (phs : List Proghdr) (h : Heap) : Except Panic (Option (ℕ × Dir) × Heap) :=
  match setupkvm h with
  | .error e => .error e
  | .ok (none,h) => .ok (none,h)
  | .ok (some (page,D),h) =>
    stackNext page (rounds segBody (fun s => (some s.2.1,s.2.2)) (phs.length+1) (phs,0,D,h))

/-- The directory of `userinit` and `inituvm`; it does not get so far without memory. -/
def userinit (h : Heap) : Option Dir :=
  match setupkvm h with
  | .ok (some (_,D),h) =>
    match kalloc h with
    | (0,_) => none
    | (mem,h) =>
      match mappages D 0 pgSize mem ⟨true,true⟩ h with
      | .ok (_,D,_) => some D
      | .error _ => none
  | _ => none

section
variable {D : Dir} {sz : ℕ}

lemma loaduvm_ok {a n : ℕ} (hs : sz ≤ kernBase) (hD : Fills D (npages sz)) (hn : 4096*a+n ≤ sz) (h : Heap) :
    loaduvm D (4096*a) n h = .ok () := by
  unfold kernBase at hs
  have haligned : ¬4096*a%pgSize ≠ 0 := by
    unfold pgSize
    omega
  obtain ⟨r,hr,-⟩ := rounds_spec (f := loadBody D (4096*a) n h) (g := fun _ => ())
    (I := fun i => ∃ u, i = 4096*u) (Q := fun _ => True) (fun i => npages n-i/4096) (by
      rintro _ ⟨u,rfl⟩
      by_cases hlt : 4096*u < n
      · have hu := lt_npages.mpr hlt
        have hva : (4096*a+4096*u)%word = 4096*(a+u) := by
          unfold word
          omega
        obtain ⟨e,he,-⟩ := hD.below (w := a+u) (lt_npages.mpr (by omega))
        cases ht : D ((a+u)/1024) with
        | none =>
          rw [ent,ht] at he
          cases he
        | some t =>
          refine .inl ⟨4096*(u+1),?_,⟨u+1,rfl⟩,by omega⟩
          simp only [loadBody,if_pos hlt,hva,walk_false (D := D) (show a+u < 2^20 by omega),ht,Option.map_some,
            next_page (show u+1 < 2^20 by omega)]
      · exact .inr ⟨(),if_neg hlt,trivial⟩)
    (s := 0) (k := n/pgSize+2) ⟨0,rfl⟩ (by
      unfold pgSize npages
      omega)
  rw [loaduvm,if_neg haligned]
  exact hr

lemma Proghdr.top_eq {ph : Proghdr} (h : ¬ph.top < ph.vaddr.toNat) : ph.top = ph.vaddr.toNat+ph.memsz.toNat := by
  have hv := ph.vaddr.toNat_lt
  have hm := ph.memsz.toNat_lt
  unfold Proghdr.top at h ⊢
  rw [UInt32.toNat_add] at h ⊢
  omega

lemma segBody_spec (hs : sz < kernBase) (hD : Fills D (npages sz)) (ph : Proghdr) (phs : List Proghdr) (h : Heap) :
    (∃ E h' n, segBody (ph :: phs,sz,D,h) = .ok (.inr (none,E,h')) ∧ Fills E n) ∨
    ∃ z E h', segBody (ph :: phs,sz,D,h) = .ok (.inl (phs,z,E,h')) ∧ z < kernBase ∧ Fills E (npages z) := by
  unfold segBody
  by_cases hload : ph.type ≠ elfProgLoad
  · simp only [if_pos hload]
    exact .inr ⟨sz,D,h,rfl,hs,hD⟩
  by_cases hmem : ph.memsz < ph.filesz
  · simp only [if_neg hload,if_pos hmem]
    exact .inl ⟨D,h,_,rfl,hD⟩
  by_cases hwrap : ph.top < ph.vaddr.toNat
  · simp only [if_neg hload,if_neg hmem,if_pos hwrap]
    exact .inl ⟨D,h,_,rfl,hD⟩
  simp only [if_neg hload,if_neg hmem,if_neg hwrap]
  obtain ⟨r,E,h',hr,hE⟩ := allocuvm_fills hs hD ph.top h
  rw [hr]
  cases r with
  | zero =>
    have hn : ∃ n, Fills E n := hE.elim (fun hE => ⟨_,hE.2⟩) (fun hE => ⟨_,hE.2.2⟩)
    obtain ⟨n,hn⟩ := hn
    exact .inl ⟨E,h',n,rfl,hn⟩
  | succ r =>
    obtain ⟨hmax,hlt,hE⟩ := hE.resolve_left nofun
    unfold loadNext
    by_cases hal : ph.vaddr.toNat%pgSize ≠ 0
    · simp only [if_pos hal]
      exact .inl ⟨E,h',_,rfl,hE⟩
    · have hva : ph.vaddr.toNat = 4096*(ph.vaddr.toNat/4096) := by
        unfold pgSize at hal
        omega
      have hfile : ph.filesz.toNat ≤ ph.memsz.toNat := Nat.le_of_not_lt hmem
      have hload := loaduvm_ok (le_of_lt hlt) hE (a := ph.vaddr.toNat/4096) (n := ph.filesz.toNat) (by
        rw [← hva]
        have := Proghdr.top_eq hwrap
        omega) h'
      rw [← hva] at hload
      simp only [if_neg hal,hload]
      exact .inr ⟨r+1,E,h',rfl,hlt,hE⟩

lemma stackNext_spec {page n : ℕ} {z : Option ℕ} (hp : page ≠ 0) (hD : Fills D n)
    (hz : ∀ x ∈ z, x < kernBase ∧ n = npages x) (h : Heap) : ∃ r h', stackNext page (.ok (z,D,h)) = .ok (r,h') ∧
      ∀ x ∈ r, x.1 < kernBase ∧ Fills x.2 (npages x.1) := by
  cases z with
  | none =>
    obtain ⟨h',hb⟩ := bad_ok hp hD h
    exact ⟨none,h',hb,nofun⟩
  | some z =>
    obtain ⟨hs,rfl⟩ := hz z rfl
    have hle := npages_le (le_of_lt hs)
    have htop : (4096*npages z+2*pgSize)%word = 4096*(npages z+2) := by
      unfold pgSize word
      omega
    have hstack : stackNext page (.ok (some z,D,h)) =
        guardNext page (allocuvm D (4096*npages z) (4096*(npages z+2)) h) := by
      rw [← htop,← pgRoundUp_page (le_of_lt hs)]
      rfl
    rw [hstack]
    by_cases hk : 4096*npages z < kernBase
    · have hpages : npages (4096*npages z) = npages z := by
        unfold npages
        omega
      obtain ⟨r,E,h',hr,hE⟩ := allocuvm_fills hk (by rwa [hpages]) (4096*(npages z+2)) h
      rw [hr]
      cases r with
      | zero =>
        have hn : ∃ n, Fills E n := hE.elim (fun hE => ⟨_,hE.2⟩) (fun hE => ⟨_,hE.2.2⟩)
        obtain ⟨n,hn⟩ := hn
        obtain ⟨h2,hb⟩ := bad_ok hp hn h'
        exact ⟨none,h2,hb,nofun⟩
      | succ r =>
        obtain ⟨hmax,hlt,hE⟩ := hE.resolve_left nofun
        have hr : r+1 = 4096*(npages z+2) := by omega
        have hguard : (r+1+word-2*pgSize)%word = 4096*npages z := by
          unfold pgSize word
          omega
        have hn : npages (r+1) = npages z+2 := by
          rw [hr]
          unfold npages
          omega
        obtain ⟨F,hc,hF⟩ := clearpteu_fills (v := npages z) hE (by omega) (by omega) h'
        refine ⟨some (r+1,F),h',?_,fun x hx => ?_⟩
        · simp only [guardNext,hguard,hc]
          rfl
        · cases hx
          exact ⟨hlt,hF⟩
    · rw [allocuvm,if_pos (by omega)]
      obtain ⟨h',hb⟩ := bad_ok hp hD h
      exact ⟨none,h',hb,nofun⟩

/-- `exec` fails or builds a directory with the pages of the size it returns. -/
lemma execImage_spec (phs : List Proghdr) (h : Heap) : ∃ r h', execImage phs h = .ok (r,h') ∧
    ∀ x ∈ r, x.1 < kernBase ∧ Fills x.2 (npages x.1) := by
  obtain ⟨r,h1,hr,-,hx⟩ := setupkvm_spec h
  unfold execImage
  rw [hr]
  cases r with
  | none => exact ⟨none,h1,rfl,nofun⟩
  | some x =>
    obtain ⟨hp,hu⟩ := hx x rfl
    have hu0 : Fills x.2 (npages 0) := fills_zero hu
    obtain ⟨⟨z,E,h2⟩,hr,n,hE,hz⟩ := rounds_spec (f := segBody) (g := fun s => (some s.2.1,s.2.2))
      (I := fun s => s.2.1 < kernBase ∧ Fills s.2.2.1 (npages s.2.1))
      (Q := fun r => ∃ n, Fills r.2.1 n ∧ ∀ z ∈ r.1, z < kernBase ∧ n = npages z) (fun s => s.1.length) (by
        rintro ⟨phs,sz,D,h⟩ ⟨hs,hD⟩
        cases phs with
        | nil => exact .inr ⟨_,rfl,npages sz,hD,fun z hz => by cases hz; exact ⟨hs,rfl⟩⟩
        | cons ph phs =>
          rcases segBody_spec hs hD ph phs h with ⟨E,h',n,hr,hE⟩ | ⟨z,E,h',hr,hz,hE⟩
          · exact .inr ⟨_,hr,n,hE,nofun⟩
          · exact .inl ⟨_,hr,⟨hz,hE⟩,lt_succ_self _⟩)
      (s := (phs,0,x.2,h1)) (k := phs.length+1) ⟨(by decide : 0 < kernBase),hu0⟩
      (lt_succ_self _)
    obtain ⟨r,h3,hr3,hQ⟩ := stackNext_spec hp hE hz h2
    rw [← hr] at hr3
    exact ⟨r,h3,hr3,hQ⟩

/-- The first process has its one page. -/
lemma userinit_fills {h : Heap} (hg : h.Good) (hD : userinit h = some D) : Fills D 1 := by
  obtain ⟨r,h1,hr,hgood,hx⟩ := setupkvm_spec h
  obtain ⟨hsome,hg1⟩ := hgood hg
  cases r with
  | none => cases hsome
  | some x =>
    have hu := fills_zero (hx x rfl).2
    unfold userinit at hD
    rw [hr] at hD
    simp only at hD
    rcases kalloc_cases h1 with ⟨h2,hk,hg2⟩ | ⟨p,h2,hk,hl2,-⟩
    · exact (hg2 hg1).elim
    · obtain ⟨b,E,h3,hE,hb,-,hent⟩ := mappages_page (D := x.2) (v := 0) (by decide) (hu.above (le_refl 0) (by decide))
        (p+1) ⟨true,true⟩ h2
      rw [mul_zero] at hE
      simp only [hk,hE] at hD
      cases hD
      have hb := hb (hl2.good hg1)
      subst hb
      refine ⟨fun {w} hw => ?_,fun {w} hw hw' => ?_⟩
      · rw [hent,if_pos ⟨rfl,by omega⟩]
        exact ⟨_,rfl,succ_ne_zero p⟩
      · rw [hent,if_neg (by omega)]
        exact hu.above (zero_le w) hw'

end

end Xv6Threads.Vm
