import Xv6Threads.Vm.Loader

/-! `exec` is safe on every file: its address arithmetic keeps to the pages that it has allocated.
Only an argument string too long for the stack by 32 MB leads it astray, through the missing check in
`uva2ka`. -/
namespace Xv6Threads.Vm.Loader
open Nat List Option UInt32

/-- The user pages of `D` are those below `n`, all from the allocator `h0`, and its kernel half is
that of `K`. -/
structure Owned (h0 : Heap) (K D : Dir) (n : ℕ) : Prop where
  below : ∀ w, w < n → ∃ k, h0.supply k ≠ 0 ∧ ent D w = some ⟨h0.supply k,⟨true,true⟩⟩
  above : ∀ w, n ≤ w → w < 2^19 → ent D w = none
  tabs : ∀ i, 512 ≤ i → D i = K i

/-- A read of `loaduvm` fills part of one page that `exec` has allocated below `KERNBASE`. -/
def Load.Good (h0 : Heap) (l : Load) : Prop :=
  l.va%pgSize = 0 ∧ l.n ≤ pgSize ∧ l.va+l.n ≤ kernBase ∧ l.pa ≠ 0 ∧ ∃ k, l.pa = h0.supply k

variable {h0 h : Heap} {K D E : Dir} {n sz : ℕ}

lemma Owned.fills (hD : Owned h0 K D n) : Fills D n := by
  refine ⟨fun {w} hw => ?_,fun {w} => hD.above w⟩
  obtain ⟨k,hk,he⟩ := hD.below w hw
  exact ⟨_,he,hk⟩

lemma allocuvm_owned (hs : sz < kernBase) (hD : Owned h0 K D (npages sz)) (hl : h0.Later h) (newsz : ℕ) :
    ∃ r E h', allocuvm D sz newsz h = .ok (r,E,h') ∧ ((r = 0 ∧ Fills E (npages sz) ∧ (newsz < kernBase → ¬h.Good)) ∨
      (r = max sz newsz ∧ r < kernBase ∧ h0.Later h' ∧ Owned h0 K E (npages r))) := by
  by_cases hlt : newsz < kernBase
  · have hle := npages_le (le_of_lt hlt)
    obtain ⟨r,E,h',hr,hE⟩ := allocuvm_spec newsz (fun w h1 h2 => hD.above w h1 (by omega)) h
    refine ⟨r,E,h',hr,hE.imp (fun ⟨h1,h2,h3⟩ => ⟨h1,hD.fills.congr h2,h3⟩)
      (fun ⟨h1,h2,h3,h4⟩ => ⟨h2,by omega,hl.trans h4.later,?_⟩)⟩
    have hmax : npages r = max (npages sz) (npages newsz) := by
      unfold npages
      omega
    obtain ⟨j,hj⟩ := hl
    rw [hmax]
    refine ⟨fun w hw => ?_,fun w hw hw' => ?_,fun i hi => (h4.tabs i hi).trans (hD.tabs i hi)⟩
    · by_cases hc : npages sz ≤ w ∧ w < npages newsz
      · obtain ⟨k,hk⟩ := h4.pages w hc.1 hc.2
        obtain ⟨p,hp,he⟩ := h3.inside hc
        rw [hk] at he
        have hpk : h.supply k = p := congrArg Pte.addr (some.inj he)
        rw [hj] at hk hpk
        exact ⟨k+j,hpk ▸ hp,hk⟩
      · rw [h3.outside hc]
        exact hD.below w (by omega)
    · rw [h3.outside (by omega)]
      exact hD.above w (by omega) hw'
  · exact ⟨0,D,h,by rw [allocuvm,if_pos (by omega)],.inl ⟨rfl,hD.fills,fun h => (hlt h).elim⟩⟩

lemma loaduvm_safe {a : ℕ} {ls : List Load} (f : File) (off : UInt32) (hs : sz ≤ kernBase)
    (hD : Owned h0 K D (npages sz)) (hn : 4096*a+n ≤ sz) (hls : ∀ l ∈ ls, l.Good h0) (h : Heap) :
    ∃ b ls', loaduvm D f (4096*a) off n h ls = .ok (some b,ls') ∧ ∀ l ∈ ls', l.Good h0 := by
  unfold kernBase at hs
  have haligned : ¬4096*a%pgSize ≠ 0 := by
    unfold pgSize
    omega
  obtain ⟨⟨b,ls'⟩,hr,⟨b',hb⟩,hQ⟩ := rounds_spec (f := loadBody D f (4096*a) off n h) (g := fun s => (none,s.2))
    (I := fun s => (∃ u, s.1 = 4096*u) ∧ ∀ l ∈ s.2, l.Good h0)
    (Q := fun r => (∃ b, r.1 = some b) ∧ ∀ l ∈ r.2, l.Good h0) (fun s => npages n-s.1/4096) (by
      rintro ⟨_,ls⟩ ⟨⟨u,rfl⟩,hls⟩
      by_cases hlt : 4096*u < n
      · have hu := lt_npages.mpr hlt
        have hva : (4096*a+4096*u)%word = 4096*(a+u) := by
          unfold word
          omega
        obtain ⟨k,hk,he⟩ := hD.below (a+u) (lt_npages.mpr (by omega))
        cases ht : D ((a+u)/1024) with
        | none =>
          rw [ent,ht] at he
          cases he
        | some t =>
          rw [ent_of_tab ht] at he
          simp only [loadBody,if_pos hlt,hva,walk_false (D := D) (show a+u < 2^20 by omega),ht,map_some,
            ptx_page,he,elim_some,next_page (show u+1 < 2^20 by omega)]
          have hgood : ∀ l ∈ ls++[⟨4096*(a+u),h0.supply k,if n-4096*u < pgSize then n-4096*u else pgSize⟩],
              l.Good h0 := by
            intro l hl
            rcases mem_append.mp hl with hl | hl
            · exact hls l hl
            · rw [mem_singleton.mp hl]
              refine ⟨mul_mod_right 4096 (a+u),?_,?_,hk,k,rfl⟩ <;> dsimp only
              · split_ifs <;> omega
              · unfold kernBase pgSize
                split_ifs <;> omega
          by_cases hread : readi f (off+ofNat (4096*u))
              (ofNat (if n-4096*u < pgSize then n-4096*u else pgSize)) =
              some (ofNat (if n-4096*u < pgSize then n-4096*u else pgSize))
          · rw [if_pos hread]
            exact .inl ⟨_,rfl,⟨⟨u+1,rfl⟩,hgood⟩,by dsimp only; omega⟩
          · rw [if_neg hread]
            exact .inr ⟨_,rfl,⟨false,rfl⟩,hgood⟩
      · exact .inr ⟨_,if_neg hlt,⟨true,rfl⟩,hls⟩)
    (s := (0,ls)) (k := n/pgSize+2) ⟨⟨0,rfl⟩,hls⟩ (by
      dsimp only
      unfold pgSize npages
      omega)
  dsimp only at hb
  rw [hb] at hr
  exact ⟨b',ls',by rw [loaduvm,if_neg haligned]; exact hr,hQ⟩

/-- What the load loop keeps. -/
structure Sound (h0 : Heap) (K : Dir) (b : Built) : Prop where
  lt : b.sz < kernBase
  owned : Owned h0 K b.dir (npages b.sz)
  later : h0.Later b.heap
  loads : ∀ l ∈ b.loads, l.Good h0

/-- How the load loop ends. -/
def Closed (h0 : Heap) (K : Dir) : Ended × Built → Prop
  | (.not,_) => False
  | (.bad,b) => (∃ n, Fills b.dir n) ∧ ∀ l ∈ b.loads, l.Good h0
  | (.done,b) => Sound h0 K b

lemma segBody_safe {b : Built} (f : File) (phnum i : ℕ) (off : UInt32) (hb : Sound h0 K b) :
    (∃ b', i < phnum ∧ segBody f phnum (i,off,b) = .ok (.inl (i+1,off+32,b')) ∧ Sound h0 K b') ∨
    ∃ r, segBody f phnum (i,off,b) = .ok (.inr r) ∧ Closed h0 K r := by
  have hbad : Closed h0 K (.bad,b) := ⟨⟨_,hb.owned.fills⟩,hb.loads⟩
  unfold segBody
  by_cases hend : ¬i < phnum
  · simp only [if_neg hend]
    exact .inr ⟨_,rfl,hb⟩
  have hi : i < phnum := by omega
  simp only [if_pos hi]
  cases hph : proghdr f off with
  | none => exact .inr ⟨_,rfl,hbad⟩
  | some ph =>
    dsimp only
    by_cases hload : ph.type ≠ elfProgLoad
    · rw [if_pos hload]
      exact .inl ⟨b,hi,rfl,hb⟩
    by_cases hmem : ph.memsz < ph.filesz
    · rw [if_neg hload,if_pos hmem]
      exact .inr ⟨_,rfl,hbad⟩
    by_cases hwrap : ph.top < ph.vaddr.toNat
    · rw [if_neg hload,if_neg hmem,if_pos hwrap]
      exact .inr ⟨_,rfl,hbad⟩
    rw [if_neg hload,if_neg hmem,if_neg hwrap]
    obtain ⟨r,E,h',hr,hE⟩ := allocuvm_owned hb.lt hb.owned hb.later ph.top
    rw [hr]
    cases r with
    | zero =>
      have hn : ∃ n, Fills E n := hE.elim (fun hE => ⟨_,hE.2.1⟩) (fun hE => ⟨_,hE.2.2.2.fills⟩)
      exact .inr ⟨_,rfl,hn,hb.loads⟩
    | succ r =>
      obtain ⟨hmax,hlt,hl,hE⟩ := hE.resolve_left nofun
      unfold segNext
      by_cases hal : ph.vaddr.toNat%pgSize ≠ 0
      · simp only [if_pos hal]
        exact .inr ⟨_,rfl,⟨_,hE.fills⟩,hb.loads⟩
      · have hva : ph.vaddr.toNat = 4096*(ph.vaddr.toNat/4096) := by
          unfold pgSize at hal
          omega
        have hfile : ph.filesz.toNat ≤ ph.memsz.toNat := Nat.le_of_not_lt hmem
        obtain ⟨ok,ls',hload,hls⟩ := loaduvm_safe (a := ph.vaddr.toNat/4096) (n := ph.filesz.toNat) f ph.off
          (le_of_lt hlt) hE (by
            rw [← hva]
            have := Proghdr.top_eq hwrap
            omega) hb.loads h'
        rw [← hva] at hload
        simp only [if_neg hal,hload]
        cases ok with
        | true => exact .inl ⟨⟨r+1,E,h',ls'⟩,hi,rfl,⟨hlt,hE,hl,hls⟩⟩
        | false => exact .inr ⟨_,rfl,⟨_,hE.fills⟩,hls⟩

lemma segments_safe {b : Built} (f : File) (phnum : ℕ) (off : UInt32) (hb : Sound h0 K b) :
    ∃ r, rounds (segBody f phnum) (fun s => (.not,s.2.2)) (phnum+1) (0,off,b) = .ok r ∧ Closed h0 K r :=
  rounds_spec (f := segBody f phnum) (g := fun s => (.not,s.2.2)) (I := fun s => Sound h0 K s.2.2)
    (Q := Closed h0 K) (fun s => phnum-s.1) (by
      rintro ⟨i,off,b⟩ hb
      rcases segBody_safe f phnum i off hb with ⟨b',hi,hr,hb'⟩ | ⟨r,hr,hQ⟩
      · exact .inl ⟨_,hr,hb',by dsimp only; omega⟩
      · exact .inr ⟨r,hr,hQ⟩)
    hb (by dsimp only; omega)

/-- The running process can call `exec`: its directory is sound, and its kernel half maps what `kalloc` returns and
nothing between the end of memory and the devices. -/
structure Running (c : Caller) (h : Heap) : Prop where
  page : c.page ≠ 0
  user : ∃ n, Fills c.dir n
  kernel : ∀ k, h.supply k ≠ 0 → h.supply k%4096 = 0 ∧ h.supply k < kernBase ∧ c.store (p2v (h.supply k)) = true
  gap : ∀ w, Gap (4096*w) → ent c.dir w = none

lemma Running.setWord {c : Caller} (hc : Running c h) (w : UInt32) : Running {c with word := w} h :=
  ⟨hc.page,hc.user,hc.kernel,hc.gap⟩

/-- Copies to the page of `e` fail, or do not trap. -/
def Copyable (c : Caller) (e : Pte) : Prop :=
  e.perm.u = true → p2v e.addr ≠ 0 ∧ p2v e.addr%4096 = 0 ∧ c.store (p2v e.addr) = true

section
variable {c : Caller} {va len : ℕ}

lemma Running.copyable (hc : Running c h0) {k : ℕ} (hk : h0.supply k ≠ 0) (perm : Perm) :
    Copyable c ⟨h0.supply k,perm⟩ := by
  intro _
  obtain ⟨h1,h2,h3⟩ := hc.kernel k hk
  refine ⟨?_,?_,h3⟩ <;> unfold p2v kernBase word at * <;> dsimp only <;> omega

lemma store_page {a o : ℕ} (ha : a%4096 = 0) (ho : o < 4096) : c.store (a+o) = c.store a := by
  unfold Caller.store
  rw [show (a+o)/4096 = a/4096 by omega]

lemma uva2ka_page {w : ℕ} {e : Pte} (hw : w < 2^20) (he : ent D w = some e) (h : Heap) :
    uva2ka c D (4096*w) h = .ok (if e.perm.u then p2v e.addr else 0) := by
  cases ht : D (w/1024) with
  | none =>
    rw [ent,ht] at he
    cases he
  | some t =>
    rw [ent_of_tab ht] at he
    simp only [uva2ka,walk_false hw,ht,map_some,ptx_page,he,elim_some]

lemma copyout_low (hlen : 0 < len) (hend : va+len ≤ kernBase)
    (hp : ∀ w, va/4096 ≤ w → 4096*w < va+len → ∃ e, ent D w = some e ∧ Copyable c e) (h : Heap) :
    ∃ b, copyout c D va len h = .ok (some b) ∧
      (b = true → ∀ w e, va/4096 ≤ w → 4096*w < va+len → ent D w = some e → e.perm.u = true) := by
  unfold kernBase at hend
  -- The bytes that are left are those from the current address to the end.
  obtain ⟨r,hr,b,hb,hQ⟩ := rounds_spec (f := copyBody c D h) (g := fun _ => none)
    (I := fun s => va ≤ s.1 ∧ s.1 ≤ 2^31+4096 ∧ s.2 = va+len-s.1 ∧ (s.1 = va ∨ s.1%4096 = 0) ∧
      ∀ w e, va/4096 ≤ w → w < s.1/4096 → ent D w = some e → e.perm.u = true)
    (Q := fun r => ∃ b, r = some b ∧
      (b = true → ∀ w e, va/4096 ≤ w → 4096*w < va+len → ent D w = some e → e.perm.u = true))
    (fun s => (va+len+4095)/4096-s.1/4096) (by
      rintro ⟨a,l⟩ ⟨hle,hmax,hl,hal,hu⟩
      dsimp only at hle hmax hl hal hu
      unfold copyBody
      by_cases hlt : 0 < l
      · have hround : pgRoundDown a = 4096*(a/4096) := rfl
        obtain ⟨e,he,hcopy⟩ := hp (a/4096) (by omega) (by omega)
        simp only [if_pos hlt,hround,uva2ka_page (c := c) (show a/4096 < 2^20 by omega) he h]
        by_cases hperm : e.perm.u = true
        · obtain ⟨h1,h2,h3⟩ := hcopy hperm
          rw [if_pos hperm,if_neg h1,store_page h2 (by omega),if_pos h3]
          refine .inl ⟨_,rfl,⟨?_,?_,?_,?_,fun w e' hw1 hw2 he' => ?_⟩,?_⟩ <;> unfold word pgSize at * <;> dsimp only at *
          · omega
          · omega
          · omega
          · omega
          · by_cases hw : w = a/4096
            · rw [hw,he] at he'
              cases he'
              exact hperm
            · exact hu w e' hw1 (by omega) he'
          · omega
        · rw [if_neg hperm]
          exact .inr ⟨_,rfl,false,rfl,nofun⟩
      · simp only [if_neg hlt]
        exact .inr ⟨_,rfl,true,rfl,fun _ w e h1 h2 he => hu w e h1 (by omega) he⟩)
    (s := (va,len)) (k := len/pgSize+3) ⟨le_rfl,by dsimp only; omega,by dsimp only; omega,.inl rfl,fun w e h1 h2 => by
      dsimp only at h2; omega⟩ (by
      dsimp only
      unfold pgSize
      omega)
  rw [hb] at hr
  exact ⟨b,hr,hQ⟩

lemma copyout_high {e : Pte} (hlen : 0 < len) (hva : va < 2^32) (he : ent D (va/4096) = some e)
    (hu : e.perm.u = false) (h : Heap) : copyout c D va len h = .ok (some false) := by
  have hround : pgRoundDown va = 4096*(va/4096) := rfl
  simp only [copyout,rounds,copyBody,if_pos hlen,hround,uva2ka_page (c := c) (show va/4096 < 2^20 by omega) he h,hu]
  rfl

/-- The new address space of `m` pages once its stack is there. -/
structure Stack (c : Caller) (D : Dir) (m : ℕ) : Prop where
  two : 2 ≤ m
  le : m ≤ 2^19
  pages : ∀ w, w < m → ∃ e, ent D w = some e ∧ Copyable c e
  guard : ∀ e, ent D (m-2) = some e → e.perm.u = false
  top : ∃ e, ent D (m-1) = some e ∧ e.perm.u = true
  kernel : ∀ w, kernBase ≤ 4096*w → w < 2^20 → ¬Gap (4096*w) → ∃ e, ent D w = some e ∧ e.perm.u = false

variable {m : ℕ}

lemma Stack.copyout (hS : Stack c D m) (va len : ℕ) (hlen : 0 < len) (hend : va+len ≤ 4096*m) (hguard : 4096*(m-1) ≤ va+len+3)
    (h : Heap) : ∃ b, copyout c D va len h = .ok (some b) ∧ (b = true → 4096*(m-1) ≤ va) := by
  have h2 := hS.two
  have h19 := hS.le
  have hk : va+len ≤ kernBase := by
    unfold kernBase
    omega
  obtain ⟨b,hb,hu⟩ := copyout_low (c := c) (D := D) hlen hk (fun w _ hw => hS.pages w (by omega)) h
  refine ⟨b,hb,fun ht => ?_⟩
  by_contra hlow
  obtain ⟨e,he,-⟩ := hS.pages (m-2) (by omega)
  have := hu ht (m-2) e (by omega) (by omega) he
  rw [hS.guard e he] at this
  cases this

lemma below_of_le {sp n : ℕ} (h1 : n+1 ≤ sp) (h2 : sp ≤ 2^31) : below sp n = 4*((sp-(n+1))/4) := by
  unfold below word
  rw [mod_eq_of_lt (show n+1 < 2^32 by omega),show sp+2^32-(n+1) = sp-(n+1)+2^32 by omega,add_mod_right,
    mod_eq_of_lt (by omega)]

lemma below_of_lt {sp n : ℕ} (h1 : sp < n+1) (h2 : n+1 ≤ 2^31) : kernBase ≤ below sp n ∧ below sp n < 2^32 := by
  unfold below word kernBase
  rw [mod_eq_of_lt (show n+1 < 2^32 by omega),mod_eq_of_lt (by omega)]
  omega

lemma pushArgs_safe (hS : Stack c D m) (h : Heap) (argv : List (List UInt8)) (hlen : ∀ s ∈ argv, s.length < kernBase)
    (argc sp : ℕ) (hargs : ¬Strays (4096*(m-1)) argc sp argv) (hargc : argc ≤ maxArg) (h1 : 4096*(m-1) ≤ sp) (h2 : sp ≤ 4096*m) :
    ∃ r, pushArgs c D h argc sp argv = .ok (some r) ∧ ∀ x ∈ r, x.1 ≤ maxArg ∧ 4096*(m-1) ≤ x.2 ∧ x.2 ≤ 4096*m := by
  have hm := hS.two
  have h19 := hS.le
  induction argv generalizing argc sp with
  | nil => exact ⟨_,rfl,fun x hx => by cases hx; exact ⟨hargc,h1,h2⟩⟩
  | cons s argv ih =>
    unfold pushArgs
    by_cases hmax : maxArg ≤ argc
    · rw [if_pos hmax]
      exact ⟨none,rfl,nofun⟩
    rw [if_neg hmax]
    have hs := hlen s (mem_cons_self ..)
    have hgap : ¬Gap (below sp s.length) := fun hg => hargs ⟨by omega,.inl hg⟩
    have hmod : (s.length+1)%word = s.length+1 := by
      unfold kernBase at hs
      unfold word
      omega
    have hcopy : ∃ b, Loader.copyout c D (below sp s.length) (s.length+1) h = .ok (some b) ∧
        (b = true → s.length+1 ≤ sp ∧ 4096*(m-1) ≤ below sp s.length ∧ below sp s.length ≤ 4096*m) := by
      by_cases hfit : s.length+1 ≤ sp
      · have hva := below_of_le hfit (by omega)
        obtain ⟨b,hb,hu⟩ := hS.copyout (below sp s.length) (s.length+1) (by omega) (by omega) (by omega) h
        exact ⟨b,hb,fun ht => ⟨hfit,hu ht,by omega⟩⟩
      · obtain ⟨hge,hlt⟩ := below_of_lt (n := s.length) (Nat.lt_of_not_le hfit) hs
        obtain ⟨e,he,hu⟩ := hS.kernel (below sp s.length/4096) (by unfold kernBase at *; omega) (by omega)
          (fun hg => hgap (gap_page.mp hg))
        have hpos : 0 < s.length+1 := Nat.succ_pos _
        exact ⟨false,copyout_high hpos hlt he hu h,nofun⟩
    obtain ⟨b,hb,hu⟩ := hcopy
    rw [hmod,hb]
    cases b with
    | false => exact ⟨none,rfl,nofun⟩
    | true =>
      obtain ⟨hfit,h3,h4⟩ := hu rfl
      have hva := below_of_le hfit (by omega)
      refine ih (fun s hs => hlen s (mem_cons_of_mem _ hs)) (argc+1) (below sp s.length) (fun hst => ?_) (by omega) h3 h4
      exact hargs ⟨by omega,.inr ⟨by omega,hst⟩⟩

lemma copyout_top (hS : Stack c D m) (hlen : 0 < len) (h1 : 4096*(m-1) ≤ va) (h2 : va+len ≤ 4096*m) (h : Heap) :
    copyout c D va len h = .ok (some true) := by
  have hm := hS.two
  have h19 := hS.le
  obtain ⟨e,he,hu⟩ := hS.top
  obtain ⟨e',he',hcopy⟩ := hS.pages (m-1) (by omega)
  cases he.symm.trans he'
  obtain ⟨hka,hal,hstore⟩ := hcopy hu
  have hround : pgRoundDown va = 4096*(m-1) := by
    change 4096*(va/4096) = _
    omega
  have hstep : copyBody c D h (va,len) = .ok (.inl ((4096*(m-1)+pgSize)%word,0)) := by
    unfold copyBody
    simp only [if_pos hlen,hround,uva2ka_page (c := c) (show m-1 < 2^20 by omega) he h,if_pos hu,if_neg hka,
      store_page hal (show va-4096*(m-1) < 4096 by omega),if_pos hstore]
    rw [Nat.min_eq_right (by unfold pgSize; omega),Nat.sub_self]
  exact (rounds_next hstep _).trans (rounds_return rfl _)

/-- A word at the caller's address 0 that is taken for the entry of a page above the memory. -/
def wildWord : UInt32 := 0x0E000007

lemma copyout_gap (hgap : ∀ w, Gap (4096*w) → ent c.dir w = none) (hw : c.word = wildWord) (hlen : 0 < len) (hva : va < 2^32)
    (hD : D (va/4096/1024) = none) (h : Heap) : copyout c D va len h = .error .trap := by
  have hround : pgRoundDown va = 4096*(va/4096) := rfl
  have hka : (if c.word &&& 1 = 0 ∨ c.word &&& 4 = 0 then 0 else p2v (c.word &&& 0xFFFFF000).toNat) = 0x8E000000 := by
    rw [hw]
    decide
  have hstore : c.store (0x8E000000+(va-4096*(va/4096))) = false := by
    unfold Caller.store
    rw [show (0x8E000000+(va-4096*(va/4096)))/4096 = 0x8E000 by omega,hgap _ (by decide)]
    rfl
  have hcases : uva2ka c D (4096*(va/4096)) h = .error .trap ∨ uva2ka c D (4096*(va/4096)) h = .ok 0x8E000000 := by
    simp only [uva2ka,walk_false (D := D) (show va/4096 < 2^20 by omega),hD,map_none,hka]
    cases ent c.dir 0 with
    | none => exact .inl rfl
    | some e => exact .inr rfl
  rcases hcases with huva | huva
  · simp only [copyout,rounds,copyBody,if_pos hlen,hround,huva]
  · simp only [copyout,rounds,copyBody,if_pos hlen,hround,huva,hstore]
    rfl

lemma pushArgs_strays (hS : Stack c D m) (hgap : ∀ w, Gap (4096*w) → ent c.dir w = none) (hw : c.word = wildWord)
    (hD : ∀ va, Gap va → D (va/4096/1024) = none) (h : Heap) (argv : List (List UInt8)) (hlen : ∀ s ∈ argv, s.length < kernBase)
    (argc sp : ℕ) (hargs : Strays (4096*(m-1)) argc sp argv) (h2 : sp ≤ 4096*m) :
    pushArgs c D h argc sp argv = .error .trap := by
  have h19 := hS.le
  induction argv generalizing argc sp with
  | nil => exact hargs.elim
  | cons s argv ih =>
    obtain ⟨hargc,hargs⟩ := hargs
    have hs := hlen s (mem_cons_self ..)
    have hmod : (s.length+1)%word = s.length+1 := by
      unfold kernBase at hs
      unfold word
      omega
    unfold pushArgs
    rw [if_neg (by omega),hmod]
    rcases hargs with hg | ⟨hfit,hst⟩
    · have hva : below sp s.length < 2^32 := by
        have := hg.2
        unfold devSpace at this
        omega
      rw [copyout_gap hgap hw (Nat.succ_pos _) hva (hD _ hg)]
    · have hva := below_of_le (show s.length+1 ≤ sp by omega) (by omega)
      rw [copyout_top hS (Nat.succ_pos _) (by omega) (by omega)]
      exact ih (fun s hs => hlen s (mem_cons_of_mem _ hs)) (argc+1) (below sp s.length) hst (by omega)

end

section
variable {c : Caller} {page m : ℕ} {ls : List Load} {image : Option (ℕ × Dir)} {argv : List (List UInt8)}

/-- What `exec` has done when it returns. -/
structure Fine (h0 : Heap) (o : Outcome) : Prop where
  ret : o.ret = some 0 ∨ o.ret = some (-1)
  loads : ∀ l ∈ o.loads, l.Good h0
  image : ∀ x ∈ o.image, x.1 < kernBase ∧ ∃ K, Owned h0 K x.2 (npages x.1)

lemma bad_safe (hp : page ≠ 0) (hD : Fills D n) (hls : ∀ l ∈ ls, l.Good h0)
    (himage : ∀ x ∈ image, x.1 < kernBase ∧ ∃ K, Owned h0 K x.2 (npages x.1)) (h : Heap) :
    ∃ o, bad page D h ls image = .ok o ∧ Fine h0 o := by
  obtain ⟨h',hf⟩ := freevm_ok hp (fun _ _ => hD.addr) h
  exact ⟨_,by rw [bad,hf],⟨.inr rfl,hls,himage⟩⟩

lemma commit_safe (hc : Running c h0) (hp : page ≠ 0) (hD : Fills D n) (hS : Stack c D m)
    (hls : ∀ l ∈ ls, l.Good h0) (himage : ∀ x ∈ image, x.1 < kernBase ∧ ∃ K, Owned h0 K x.2 (npages x.1)) (h : Heap)
    {r : Option (ℕ × ℕ)} (hr : ∀ x ∈ r, x.1 ≤ maxArg ∧ 4096*(m-1) ≤ x.2 ∧ x.2 ≤ 4096*m) :
    ∃ o, commit c page D h ls image (.ok (some r)) = .ok o ∧ Fine h0 o := by
  cases r with
  | none => exact bad_safe hp hD hls himage h
  | some x =>
    obtain ⟨hargc,h1,h2⟩ := hr x rfl
    have hm := hS.two
    have h19 := hS.le
    unfold maxArg at hargc
    have hva : (x.2+word-(3+x.1+1)*4)%word = x.2-(3+x.1+1)*4 := by
      unfold word
      omega
    obtain ⟨b,hb,-⟩ := hS.copyout (x.2-(3+x.1+1)*4) ((3+x.1+1)*4) (by omega) (by omega) (by omega) h
    unfold commit
    simp only [hva,hb]
    cases b with
    | false => exact bad_safe hp hD hls himage h
    | true =>
      obtain ⟨k,hk⟩ := hc.user
      obtain ⟨h',hf⟩ := freevm_ok hc.page (fun _ _ => hk.addr) h
      exact ⟨⟨some 0,ls,image⟩,by simp only [hf],⟨.inl rfl,hls,himage⟩⟩

lemma clearpteu_ent {v : ℕ} {e : Pte} (hv : v < 2^20) (he : ent D v = some e) (h : Heap) :
    ∃ E, clearpteu D (4096*v) h = .ok E ∧
      (∀ w, ent E w = if w = v then some ⟨e.addr,⟨e.perm.w,false⟩⟩ else ent D w) ∧ ∀ i, i ≠ v/1024 → E i = D i := by
  cases ht : D (v/1024) with
  | none =>
    rw [ent,ht] at he
    cases he
  | some t =>
    have hpte := ent_of_tab ht
    rw [he] at hpte
    refine ⟨setPte D (4096*v) t (some ⟨e.addr,⟨e.perm.w,false⟩⟩),?_,ent_setPte hv ht _,fun i hi => ?_⟩
    · simp only [clearpteu,walk_false hv,ht,map_some,ptx_page,← hpte]
    · rw [setPte,pdx_page hv,Function.update_of_ne hi]

lemma kernel_high (hK : Kernel kmap.reverse K) {w : ℕ} (h1 : kernBase ≤ 4096*w) (h2 : w < 2^20) (hg : ¬Gap (4096*w)) :
    ∃ e, ent K w = some e ∧ e.perm.u = false := by
  obtain ⟨k,hk,hv,hv',hu⟩ := kmap_covers h1 (by unfold word; omega) hg
  obtain ⟨p,hp⟩ := hK.pages k (mem_reverse.mpr hk) w hv hv'
  exact ⟨_,hp,hu⟩

lemma kernel_gap (hK : Kernel kmap.reverse K) {va : ℕ} (hg : Gap va) : K (va/4096/1024) = none := by
  have hsizes : ∀ k ∈ kmap.reverse, (k.virt+k.size-1)/2^22 < 0x238 ∨ 0x3f8 ≤ k.virt/2^22 := by decide
  unfold Gap kernBase phystop devSpace at hg
  by_contra hne
  obtain ⟨k,hk,hle,hle'⟩ := hK.tabs _ hne
  have := hsizes k hk
  omega

lemma ent_of_tabs (h : ∀ i, 512 ≤ i → D i = K i) {w : ℕ} (hw : 2^19 ≤ w) : ent D w = ent K w := by
  rw [ent,h _ (by omega)]
  rfl

lemma guard_stack (hc : Running c h0) (hK : Kernel kmap.reverse K) (hE : Owned h0 K E (m+2)) (hm : m+2 ≤ 2^19)
    (h : Heap) : ∃ F, clearpteu E (4096*m) h = .ok F ∧ Stack c F (m+2) ∧ Fills F (m+2) ∧ ∀ i, 512 ≤ i → F i = K i := by
  obtain ⟨k,hk,he⟩ := hE.below m (by omega)
  obtain ⟨F,hF,hent,htab⟩ := clearpteu_ent (by omega) he h
  have htabs : ∀ i, 512 ≤ i → F i = K i := fun i hi => (htab i (by omega)).trans (hE.tabs i hi)
  have hpage : ∀ w, w < m+2 → ∃ k perm, h0.supply k ≠ 0 ∧ ent F w = some ⟨h0.supply k,perm⟩ := by
    intro w hw
    rw [hent]
    split_ifs
    · exact ⟨k,_,hk,rfl⟩
    · obtain ⟨k,hk,he⟩ := hE.below w hw
      exact ⟨k,_,hk,he⟩
  refine ⟨F,hF,⟨by omega,hm,fun w hw => ?_,fun e he' => ?_,?_,fun w h1 h2 hg => ?_⟩,⟨fun {w} hw => ?_,fun {w} h1 h2 => ?_⟩,htabs⟩
  · obtain ⟨k,perm,hk,he⟩ := hpage w hw
    exact ⟨_,he,hc.copyable hk perm⟩
  · rw [Nat.add_sub_cancel,hent,if_pos rfl] at he'
    cases he'
    rfl
  · obtain ⟨k,-,he⟩ := hE.below (m+1) (by omega)
    exact ⟨_,(hent (m+1)).trans ((if_neg (by omega)).trans he),rfl⟩
  · rw [ent_of_tabs htabs (by unfold kernBase at h1; omega)]
    exact kernel_high hK h1 h2 hg
  · obtain ⟨k,perm,hk,he⟩ := hpage w hw
    exact ⟨_,he,hk⟩
  · rw [hent,if_neg (by omega)]
    exact hE.above w h1 h2

lemma stackSize_done (b : Built) : stackSize (.ok (.done,b)) =
    allocated (allocuvm b.dir (pgRoundUp b.sz) ((pgRoundUp b.sz+2*pgSize)%word) b.heap) := by
  unfold stackSize
  rfl

lemma stackNext_done (b : Built) : stackNext c argv page (.ok (.done,b)) = argsNext c argv page b.loads (some (b.sz,b.dir))
    (allocuvm b.dir (pgRoundUp b.sz) ((pgRoundUp b.sz+2*pgSize)%word) b.heap) := by
  unfold stackNext
  rfl

/-- `exec` ends before it comes to the arguments, or they are left to push in an address space of `m` pages. -/
def Arrives (c : Caller) (argv : List (List UInt8)) (h0 : Heap) (r : Except Fault Outcome) (top : Option ℕ) : Prop :=
  (top = none ∧ ∃ o, r = .ok o ∧ Fine h0 o) ∨
    ∃ m page F h ls image, top = some (4096*m) ∧ r = commit c page F h ls image (pushArgs c F h 0 (4096*m) argv) ∧ page ≠ 0 ∧
      Stack c F m ∧ (∃ n, Fills F n) ∧ (∀ va, Gap va → F (va/4096/1024) = none) ∧ (∀ l ∈ ls, l.Good h0) ∧
      ∀ x ∈ image, x.1 < kernBase ∧ ∃ K, Owned h0 K x.2 (npages x.1)

lemma stackNext_safe (hc : Running c h0) (hK : Kernel kmap.reverse K) (hp : page ≠ 0) (argv : List (List UInt8))
    {r : Ended × Built} (hr : Closed h0 K r) : Arrives c argv h0 (stackNext c argv page (.ok r)) (stackSize (.ok r)) := by
  obtain ⟨x,b⟩ := r
  cases x with
  | not => exact hr.elim
  | bad =>
    obtain ⟨⟨n,hn⟩,hls⟩ := hr
    exact .inl ⟨rfl,bad_safe hp hn hls (fun x hx => by cases hx) b.heap⟩
  | done =>
    have hb : Sound h0 K b := hr
    have hlt := hb.lt
    have hD := hb.owned
    have hl := hb.later
    have hls := hb.loads
    have himage : ∀ x ∈ some (b.sz,b.dir), x.1 < kernBase ∧ ∃ K, Owned h0 K x.2 (npages x.1) := by
      intro x hx
      cases hx
      exact ⟨hlt,K,hD⟩
    have hle := npages_le (le_of_lt hlt)
    have htop : (4096*npages b.sz+2*pgSize)%word = 4096*(npages b.sz+2) := by
      unfold pgSize word
      omega
    rw [stackNext_done,stackSize_done,pgRoundUp_page (le_of_lt hlt),htop]
    by_cases hk : 4096*npages b.sz < kernBase
    · have hpages : npages (4096*npages b.sz) = npages b.sz := by
        unfold npages
        omega
      obtain ⟨r,E,h',hr,hE⟩ := allocuvm_owned hk (by rwa [hpages]) hl (4096*(npages b.sz+2))
      rw [hr]
      cases r with
      | zero =>
        have hn : ∃ n, Fills E n := hE.elim (fun hE => ⟨_,hE.2.1⟩) (fun hE => ⟨_,hE.2.2.2.fills⟩)
        obtain ⟨n,hn⟩ := hn
        exact .inl ⟨rfl,bad_safe hp hn hls himage h'⟩
      | succ r =>
        obtain ⟨hmax,hlt',hl',hE⟩ := hE.resolve_left nofun
        have hr : r+1 = 4096*(npages b.sz+2) := by omega
        have hguard : (r+1+word-2*pgSize)%word = 4096*npages b.sz := by
          unfold pgSize word
          omega
        have hn : npages (r+1) = npages b.sz+2 := by
          rw [hr]
          unfold npages
          omega
        rw [hn] at hE
        unfold kernBase at hlt'
        obtain ⟨F,hF,hS,hfills,htabs⟩ := guard_stack hc hK hE (by omega) h'
        refine .inr ⟨_,page,F,h',b.loads,_,congrArg some hr,?_,hp,hS,⟨_,hfills⟩,fun va hg => ?_,hls,himage⟩
        · rw [← hr]
          simp only [argsNext,hguard,hF]
        rw [htabs _ (by unfold Gap kernBase phystop at hg; omega)]
        exact kernel_gap hK hg
    · rw [allocuvm,if_pos (by omega)]
      exact .inl ⟨rfl,bad_safe hp hD.fills hls himage b.heap⟩

lemma owned_zero (hK : Kernel kmap.reverse K) : Owned h0 K K 0 := by
  refine ⟨nofun,fun w _ hw => ?_,fun _ _ => rfl⟩
  rw [ent,hK.user (fun k hk => kernBase_le k (mem_reverse.mp hk)) (by omega)]
  rfl

lemma exec_arrives (f : File) (argv : List (List UInt8)) (hc : Running c h) :
    Arrives c argv h (exec f argv c h) (stackTop f h) := by
  have hfail : Fine h ⟨some (-1),[],none⟩ := ⟨.inr rfl,nofun,nofun⟩
  unfold exec stackTop
  by_cases hread : readi f 0 52 ≠ some 52
  · rw [if_pos hread,if_pos (.inl hread)]
    exact .inl ⟨rfl,_,rfl,hfail⟩
  by_cases hmagic : f.uint 0 ≠ elfMagic
  · rw [if_neg hread,if_pos hmagic,if_pos (.inr hmagic)]
    exact .inl ⟨rfl,_,rfl,hfail⟩
  rw [if_neg hread,if_neg hmagic,if_neg (not_or_intro hread hmagic)]
  obtain ⟨r,h1,hr,-,hx⟩ := setupkvm_kernel h
  rw [hr]
  cases r with
  | none => exact .inl ⟨rfl,_,rfl,hfail⟩
  | some x =>
    obtain ⟨hp,hl,hK⟩ := hx x rfl
    have hzero : Owned h x.2 x.2 (npages 0) := owned_zero hK
    have hsound : Sound h x.2 ⟨0,x.2,h1,[]⟩ := ⟨(by decide : 0 < kernBase),hzero,hl,nofun⟩
    obtain ⟨r,hr,hQ⟩ := segments_safe f (f.ushort 44) (f.uint 28) hsound
    dsimp only
    rw [hr]
    exact stackNext_safe hc hK hp argv hQ

lemma exec_fine (f : File) (hc : Running c h) (hlen : ∀ s ∈ argv, s.length < kernBase)
    (hargs : ∀ sz, stackTop f h = some sz → ¬Strays (sz-4096) 0 sz argv) : ∃ o, exec f argv c h = .ok o ∧ Fine h o := by
  rcases exec_arrives f argv hc with ⟨-,ho⟩ | ⟨m,page,F,h',ls,image,htop,hex,hp,hS,⟨n,hF⟩,-,hls,himage⟩
  · exact ho
  · have hst := hargs _ htop
    rw [show 4096*m-4096 = 4096*(m-1) by omega] at hst
    obtain ⟨x,hx,hQ⟩ := pushArgs_safe hS h' argv hlen 0 (4096*m) hst (zero_le _) (by omega) le_rfl
    rw [hex,hx]
    exact commit_safe hc hp hF hS hls himage h' hQ

lemma exec_strays (f : File) (hc : Running c h) (hlen : ∀ s ∈ argv, s.length < kernBase) (hw : c.word = wildWord) {sz : ℕ}
    (htop : stackTop f h = some sz) (hargs : Strays (sz-4096) 0 sz argv) : exec f argv c h = .error .trap := by
  obtain ⟨m,page,F,h',ls,image,htop',hex,-,hS,-,hgap,-⟩ := (exec_arrives f argv hc).resolve_left fun hno => by
    rw [htop] at hno
    cases hno.1
  cases htop.symm.trans htop'
  rw [show 4096*m-4096 = 4096*(m-1) by omega] at hargs
  rw [hex,pushArgs_strays hS hc.gap hw hgap h' argv hlen 0 (4096*m) hargs le_rfl]
  rfl

/-- `exec` does not panic or trap, ends with 0 or -1, reads only into pages it has allocated below `KERNBASE`, and after
the load loop exactly the pages below `PGROUNDUP(sz)` are there, all for users to write. -/
def Safe (f : File) (argv : List (List UInt8)) (c : Caller) (h : Heap) : Prop :=
  ∃ o, exec f argv c h = .ok o ∧ (o.ret = some 0 ∨ o.ret = some (-1)) ∧
    (∀ l ∈ o.loads, l.va%pgSize = 0 ∧ l.n ≤ pgSize ∧ l.va+l.n ≤ kernBase ∧ l.pa ≠ 0 ∧ ∃ k, l.pa = h.supply k) ∧
    ∀ sz D, o.image = some (sz,D) → sz < kernBase ∧ ∀ w, w < 2^19 →
      ((ent D w).isSome = true ↔ 4096*w < pgRoundUp sz) ∧ ∀ e, ent D w = some e → e.perm = ⟨true,true⟩

lemma Fine.safe {f : File} {o : Outcome} (ho : exec f argv c h = .ok o) (hf : Fine h o) : Safe f argv c h := by
  obtain ⟨hret,hloads,himage⟩ := hf
  refine ⟨o,ho,hret,hloads,fun sz D hx => ?_⟩
  obtain ⟨hlt,K,hD⟩ := himage _ hx
  refine ⟨hlt,fun w hw => ⟨?_,fun e he => ?_⟩⟩
  · rw [hD.fills.isSome_iff hw,pgRoundUp_page (Nat.le_of_lt hlt)]
    dsimp only
    omega
  · by_cases hwn : w < npages sz
    · obtain ⟨k,-,hk⟩ := hD.below w hwn
      rw [hk] at he
      cases he
      rfl
    · rw [hD.above w (by dsimp only; omega) hw] at he
      cases he

end

/-- The memory that is left when `hog` runs. -/
def hogHeap : Heap := ⟨fun n => 4096*(30000+n%20000),[]⟩

/-- A process of 10000 pages, with a word of its own choice at address 0. -/
def hog : Caller where
  page := 4096*5000
  dir d :=
    if d < 10 then
      some ⟨4096*(5001+d),fun i => if 1024*d+i < 10000 then some ⟨4096*(6000+1024*d+i),⟨true,true⟩⟩ else none⟩
    else if 512 ≤ d ∧ d < 568 then
      some ⟨4096*(5001+d),fun i => some ⟨4096*(1024*(d-512)+i),⟨true,false⟩⟩⟩
    else none
  word := 0xFFFFF007

/-- A program without segments. -/
def bareElf : File where
  size := 52
  byte
    | 0 => 0x7F
    | 1 => 0x45
    | 2 => 0x4C
    | 3 => 0x46
    | _ => 0

lemma hog_user {w : ℕ} (hw : w < 10000) : ent hog.dir w = some ⟨4096*(6000+1024*(w/1024)+w%1024),⟨true,true⟩⟩ := by
  simp only [ent,hog,if_pos (show w/1024 < 10 by omega),bind_some,if_pos (show 1024*(w/1024)+w%1024 < 10000 by omega)]

lemma hog_none {w : ℕ} (h1 : 10000 ≤ w) (h2 : w < 2^19) : ent hog.dir w = none := by
  by_cases hw : w/1024 < 10
  · simp only [ent,hog,if_pos hw,bind_some,if_neg (show ¬1024*(w/1024)+w%1024 < 10000 by omega)]
  · simp only [ent,hog,if_neg hw,if_neg (show ¬(512 ≤ w/1024 ∧ w/1024 < 568) by omega),bind_none]

lemma hog_running : Running hog hogHeap := by
  refine ⟨by decide,⟨10000,fun {w} hw => ⟨_,hog_user hw,?_⟩,fun {w} => hog_none⟩,fun k _ => ⟨?_,?_,?_⟩,fun w hg => ?_⟩
  · dsimp only
    omega
  · dsimp only [hogHeap]
    omega
  · unfold kernBase
    dsimp only [hogHeap]
    omega
  · have hka : p2v (hogHeap.supply k)/4096 = 2^19+(30000+k%20000) := by
      unfold p2v kernBase word
      dsimp only [hogHeap]
      omega
    unfold Caller.store
    rw [hka]
    simp only [ent,hog,if_neg (show ¬(2^19+(30000+k%20000))/1024 < 10 by omega),
      if_pos (show 512 ≤ (2^19+(30000+k%20000))/1024 ∧ (2^19+(30000+k%20000))/1024 < 568 by omega),bind_some, elim_some]
  · unfold Gap kernBase phystop devSpace at hg
    simp only [ent,hog,if_neg (show ¬w/1024 < 10 by omega),if_neg (show ¬(512 ≤ w/1024 ∧ w/1024 < 568) by omega),bind_none]

lemma hog_good : hogHeap.Good := fun n => mul_ne_zero (by decide) (by omega)

lemma hog_copyout (va len : ℕ) (hlen : 0 < len) (hva : va < 2^32) (hD : D (va/4096/1024) = none) (h : Heap) :
    copyout hog D va len h = .error .trap := by
  have hround : pgRoundDown va = 4096*(va/4096) := rfl
  have hzero : ent hog.dir 0 = some ⟨4096*6000,⟨true,true⟩⟩ := hog_user (by decide)
  have hka : (if hog.word &&& 1 = 0 ∨ hog.word &&& 4 = 0 then 0 else p2v (hog.word &&& 0xFFFFF000).toNat) = 0x7FFFF000 := by
    decide
  have hstore : hog.store (0x7FFFF000+(va-4096*(va/4096))) = false := by
    unfold Caller.store
    rw [show (0x7FFFF000+(va-4096*(va/4096)))/4096 = 0x7FFFF by omega,hog_none (by decide) (by decide)]
    rfl
  have huva : uva2ka hog D (4096*(va/4096)) h = .ok 0x7FFFF000 := by
    simp only [uva2ka,walk_false (D := D) (show va/4096 < 2^20 by omega),hD,map_none,hzero,hka]
  simp only [copyout,rounds,copyBody,if_pos hlen,hround,huva,hstore]
  rfl

/-- The program without segments gets two pages. -/
lemma stackTop_bare : stackTop bareElf hogHeap = some 8192 := by
  obtain ⟨r,h1,hr,hsome,hx⟩ := setupkvm_kernel hogHeap
  cases r with
  | none => cases hsome hog_good
  | some x =>
    obtain ⟨-,hl,hK⟩ := hx x rfl
    obtain ⟨r,E,h2,hr2,hE⟩ := allocuvm_owned (h := h1) (K := x.2) (D := x.2) (by decide : 0 < kernBase)
      (owned_zero hK : Owned hogHeap x.2 x.2 (npages 0)) hl (4096*2)
    obtain ⟨hr0,-⟩ := hE.resolve_left fun h => h.2.2 (by decide) (hl.good hog_good)
    obtain ⟨r,rfl⟩ : ∃ k, r = k+1 := ⟨r-1,by omega⟩
    have hseg : rounds (segBody bareElf (bareElf.ushort 44)) (fun s => (.not,s.2.2)) (bareElf.ushort 44+1)
        (0,bareElf.uint 28,⟨0,x.2,h1,[]⟩) = .ok (.done,⟨0,x.2,h1,[]⟩) := rfl
    rw [stackTop,if_neg (by decide),hr]
    simp only
    rw [hseg]
    rw [stackSize_done]
    simp only
    rw [show pgRoundUp 0 = 0 by decide,show (0+2*pgSize)%word = 4096*2 by decide,hr2]
    exact congrArg some (by omega)

lemma bare_arrives (argv : List (List UInt8)) : ∃ page F h ls image, exec bareElf argv hog hogHeap =
      commit hog page F h ls image (pushArgs hog F h 0 8192 argv) ∧ Stack hog F 2 ∧ ∀ va, Gap va → F (va/4096/1024) = none := by
  obtain ⟨m,page,F,h,ls,image,htop,hex,-,hS,-,hgap,-⟩ := (exec_arrives bareElf argv hog_running).resolve_left fun hno => by
    rw [stackTop_bare] at hno
    cases hno.1
  have hm := some.inj (stackTop_bare.symm.trans htop)
  obtain rfl : m = 2 := by omega
  exact ⟨page,F,h,ls,image,hex,hS,hgap⟩

lemma exec_trap {s : List UInt8} (hs : s.length = 40000000) : exec bareElf [s] hog hogHeap = .error .trap := by
  obtain ⟨page,F,h',ls,image,hex,-,hgap⟩ := bare_arrives [s]
  have hbelow : below 8192 40000000 = 4254975484 := by decide
  have hmod : (40000000+1)%word = 40000001 := by decide
  have hcopy := hog_copyout (D := F) 4254975484 40000001 (by decide) (by decide) (hgap _ (by decide)) h'
  have hpush : pushArgs hog F h' 0 8192 [s] = .error .trap := by
    simp only [pushArgs,hs,hbelow,hmod,hcopy]
    rfl
  rw [hex,hpush]
  rfl

end Xv6Threads.Vm.Loader
