import Xv6Threads.Umalloc.Free

/-! `malloc`: taking a block from the list, `morecore`, and the search, which goes round the list at most twice. -/
namespace Xv6Threads.Umalloc
open Function List
variable {base : ℕ} {h : Heap} {l live : List ℕ}

lemma Ring.perm {live' : List ℕ} (hr : Ring base h l live) (hp : live.Perm live') : Ring base h l live' where
  links := hr.links
  gaps := hr.gaps
  base_size := hr.base_size
  pos a ha := hr.pos a ((hp.append_left l).mem_iff.mpr ha)
  freep := hr.freep
  tile x := ((hp.append_left l).countP_eq _).symm.trans (hr.tile x)
  once := hr.once
  within := hr.within
  room := hr.room

lemma ring_start (h0 : h.freep = 0) (hs : h.segs = []) (hroom : base+8 ≤ h.brk ∧ h.brk < 2^31) :
    Ring base (h.start base) [] [] := by
  rw [Heap.start,if_pos h0]
  refine ⟨?_,pairwise_singleton _ _,update_self ..,nofun,mem_cons_self,fun x => ?_,fun x => ?_, fun x hx => ?_,hroom⟩
  · exact isChain_cons_cons.mpr ⟨update_self ..,isChain_singleton base⟩
  · simp [hs,cover,owned]
  · simp [hs,owned]
  · simp [hs,owned] at hx

section
variable {n nu : ℕ} {answer : Option ℕ}

lemma owned_cons {segs : List (ℕ × ℕ)} {q m x : ℕ} :
    owned ((q,m) :: segs) x = owned segs x+if q ≤ x ∧ x < q+m then 1 else 0 := by simp [owned,countP_cons]

lemma Ring.fresh (hr : Ring base h l live) {q : ℕ} (hq : h.brk ≤ q) (hnu : 1 ≤ nu) (htop : q+nu*8 < 2^31) :
    Ring base { h with brk := q+nu*8, segs := (q,nu*8) :: h.segs, size := update h.size q nu } l (q :: live) := by
  have hne : ∀ a ∈ l++live, a ≠ q := fun a ha => by
    have := hr.bounds ha
    have := hr.pos a ha
    omega
  have hsame : ∀ a ∈ l++live, update h.size q nu a = h.size a := fun a ha =>
    update_of_ne (hne a ha) _ _
  have hkeep : ∀ a ∈ l++live, 1 ≤ update h.size q nu a := fun a ha => by
    rw [hsame a ha]
    exact hr.pos a ha
  have hbase : update h.size q nu base = h.size base := update_of_ne (by have := hr.room; omega) _ _
  have hold : ∀ x, owned h.segs x ≠ 0 → base+8 ≤ x ∧ x < h.brk := fun x hx => hr.within x (Nat.pos_of_ne_zero hx)
  refine ⟨hr.links,gaps_congr (fun a ha => ?_) hr.gaps,hbase.trans hr.base_size,fun a ha => ?_,hr.freep,fun x => ?_,
    fun x => ?_,fun x hx => ?_,⟨?_,htop⟩⟩
  · rcases mem_cons.mp ha with rfl | ha
    · exact hbase
    · exact hsame a (mem_append_left live ha)
  · rcases mem_append.mp ha with ha | ha
    · exact hkeep a (mem_append_left live ha)
    · rcases mem_cons.mp ha with rfl | ha
      · simpa using hnu
      · exact hkeep a (mem_append_right l ha)
  · have htile := hr.tile x
    rw [cover_append] at htile
    rw [owned_cons,← htile,cover_append,cover_cons,cover_congr fun a ha => hsame a (mem_append_left live ha),
      cover_congr fun a ha => hsame a (mem_append_right l ha)]
    simp only [update_self]
    split_ifs <;> omega
  · have := hr.once x
    have := hold x
    rw [owned_cons]
    split_ifs <;> omega
  · have := hold x
    have := hr.room
    rw [owned_cons] at hx
    change base+8 ≤ x ∧ x < q+nu*8
    split_ifs at hx <;> omega
  · have := hr.room
    change base+8 ≤ q+nu*8
    omega

/-- `sbrk` does not give the memory that `morecore` asks for. -/
def Heap.Refused (h : Heap) (answer : Option ℕ) (nu : ℕ) : Prop :=
  ∀ gap, answer = some gap → 2^31 ≤ h.brk+gap+(if nu < 4096 then 4096 else nu)*8

/-- `morecore` fails and changes nothing, or puts a block of the size into the list. -/
lemma morecore_spec (nu : ℕ) (hr : Ring base h l live) (hn : l.length < n) :
    (morecore n h answer nu = some (0,h) ∧ h.Refused answer nu) ∨
    ∃ h' l', morecore n h answer nu = some (h'.freep,h') ∧ Ring base h' l' live ∧
      (∀ a ∈ live, h'.size a = h.size a) ∧ (∃ b ∈ l', nu ≤ h'.size b) ∧ ¬h.Refused answer nu := by
  unfold morecore sbrk Heap.Refused
  cases answer with
  | none => exact .inl ⟨rfl,nofun⟩
  | some gap =>
    have hnu : nu ≤ (if nu < 4096 then 4096 else nu) ∧ 1 ≤ (if nu < 4096 then 4096 else nu) := by split_ifs <;> omega
    generalize (if nu < 4096 then 4096 else nu) = m at hnu ⊢
    simp only
    split_ifs with htop
    · refine .inr ?_
      have hfresh := hr.fresh (Nat.le_add_right h.brk gap) hnu.2 htop
      obtain ⟨h',l',hfree,hr',hsame,-,-,b,hb,hle⟩ := free_spec hfresh hn
      refine ⟨h',l',by simp only [hfree,Option.map_some],hr',fun a ha => ?_,⟨b,hb,?_⟩,fun hno => ?_⟩
      · rw [hsame a ha]
        have := hr.bounds (mem_append_right l ha)
        have := hr.pos a (mem_append_right l ha)
        exact update_of_ne (by omega) _ _
      · refine Nat.le_trans hnu.1 (Nat.le_trans (Nat.le_of_eq ?_) hle)
        simp
      · exact Nat.not_le_of_lt htop (hno gap rfl)
    · exact .inl ⟨rfl,fun _ hgap => Option.some.inj hgap ▸ Nat.le_of_not_lt htop⟩

end

section
variable {nunits prevp p : ℕ}

lemma Ring.unlink {c d : List ℕ} (hr : Ring base h l live) (hsplit : base :: l = c++prevp :: p :: d) :
    ∃ l', Ring base { h with ptr := update h.ptr prevp (h.ptr p), freep := prevp } l' (p :: live) := by
  obtain ⟨l',hl',hperm⟩ : ∃ l', base :: l' = c++prevp :: d ∧ l.Perm (p :: l') := by
    cases c with
    | nil =>
      cases hsplit
      exact ⟨d,rfl,.refl _⟩
    | cons a c =>
      cases hsplit
      refine ⟨c++prevp :: d,rfl,?_⟩
      have : c++prevp :: p :: d = (c++[prevp])++p :: d := by simp
      have he : c++prevp :: d = (c++[prevp])++d := by simp
      rw [append_eq,this,he]
      exact perm_middle
  have hsub : (base :: l').Sublist (base :: l) := by
    rw [hl',hsplit]
    exact (List.Sublist.refl c).append ((sublist_cons_self p d).cons_cons prevp)
  have hperm' : (l++live).Perm (l'++p :: live) := (hperm.append_right live).trans (perm_middle.symm)
  have hnodup := hr.nodup
  rw [hsplit] at hnodup
  obtain ⟨-,hnd,hdis⟩ := nodup_append.mp hnodup
  refine ⟨l',?_,hr.gaps.sublist hsub,hr.base_size,fun a ha => hr.pos a (hperm'.mem_iff.mpr ha),?_,
    fun x => (hperm'.countP_eq _).symm.trans (hr.tile x),hr.once,hr.within,hr.room⟩
  · have hl := hr.links
    rw [hsplit,append_assoc] at hl
    rw [hl',append_assoc]
    obtain ⟨h1,h2⟩ := isChain_split.mp hl
    refine isChain_split.mpr ⟨chain_congr (fun a ha => update_of_ne ?_ _ _) h1,?_⟩
    · exact hdis a ha prevp mem_cons_self
    · refine chain_start (update_self ..) (fun a ha => update_of_ne ?_ _ _) h2.tail
      rintro rfl
      exact (nodup_cons.mp hnd).1 (mem_cons_of_mem p ha)
  · rw [hl']
    simp

lemma Ring.inside (hr : Ring base h l live) (hp : p ∈ l) {x : ℕ} (h1 : p < x) (h2 : x < p+8*h.size p) :
    x ∉ base :: l ∧ x ∉ live := by
  constructor
  · intro hx
    obtain ⟨c,d,hcd⟩ := append_of_mem (mem_cons_of_mem base hp)
    have hgaps := hr.gaps
    rw [hcd] at hgaps hx
    obtain ⟨-,hgd,hgc⟩ := pairwise_append.mp hgaps
    rcases mem_append.mp hx with hx | hx
    · have := hgc x hx p mem_cons_self
      omega
    · rcases mem_cons.mp hx with rfl | hx
      · omega
      · have := (pairwise_cons.mp hgd).1 x hx
        omega
  · intro hx
    have := hr.apart hp hx
    have := hr.pos x (mem_append_right l hx)
    omega

lemma Ring.cut {q : ℕ} (hr : Ring base h l live) (hp : p ∈ l) (h1 : 1 ≤ nunits) (h2 : nunits < h.size p)
    (hq : q = p+8*(h.size p-nunits)) (hprev : prevp ∈ base :: l) : Ring base { h with
      size := update (update h.size p (h.size p-nunits)) q nunits
      freep := prevp } l (q :: live) := by
  obtain ⟨hql,hqv⟩ := hr.inside (x := q) hp (by omega) (by omega)
  have hpv : p ∉ live := fun hpv => hr.live_not_mem hpv (mem_cons_of_mem base hp)
  have hpq : p ≠ q := by omega
  generalize hsize : update (update h.size p (h.size p-nunits)) q nunits = size'
  have hsq : size' q = nunits := by rw [← hsize,update_self]
  have hsp : size' p = h.size p-nunits := by rw [← hsize,update_of_ne hpq,update_self]
  have hsame : ∀ a, a ≠ p → a ≠ q → size' a = h.size a := fun a hap haq => by
    rw [← hsize,update_of_ne haq,update_of_ne hap]
  have hle : ∀ a ∈ base :: l, size' a ≤ h.size a := fun a ha => by
    by_cases hap : a = p
    · rw [hap,hsp]
      exact Nat.sub_le _ _
    · exact Nat.le_of_eq (hsame a hap fun haq => hql (haq ▸ ha))
  have hlive : ∀ a ∈ live, size' a = h.size a := fun a ha =>
    hsame a (fun hap => hpv (hap ▸ ha)) (fun haq => hqv (haq ▸ ha))
  have hbp : base ≠ p := fun hbp => (nodup_cons.mp hr.nodup).1 (hbp ▸ hp)
  refine ⟨hr.links,hr.gaps.imp_of_mem fun {a b} ha _ hab => ?_,
    (hsame base hbp fun hbq => hql (hbq ▸ mem_cons_self)).trans hr.base_size,fun a ha => ?_,hprev,fun x => ?_,hr.once,
    hr.within,hr.room⟩
  · have := hle a ha
    change a+8*size' a < b
    omega
  · change 1 ≤ size' a
    rcases mem_append.mp ha with ha | ha
    · by_cases hap : a = p
      · rw [hap,hsp]
        omega
      · rw [hsame a hap fun haq => hql (haq ▸ mem_cons_of_mem base ha)]
        exact hr.pos a (mem_append_left live ha)
    · rcases mem_cons.mp ha with rfl | ha
      · rwa [hsq]
      · rw [hlive a ha]
        exact hr.pos a (mem_append_right l ha)
  · obtain ⟨c,d,rfl⟩ := append_of_mem hp
    have hnodup := (nodup_cons.mp hr.nodup).2
    obtain ⟨-,hnd,hdis⟩ := nodup_append.mp hnodup
    have hc : ∀ a ∈ c, size' a = h.size a := fun a ha =>
      hsame a (hdis a ha p mem_cons_self) fun haq => hql (haq ▸ by simp [ha])
    have hd : ∀ a ∈ d, size' a = h.size a := fun a ha =>
      hsame a (fun hap => (nodup_cons.mp hnd).1 (hap ▸ ha)) fun haq => hql (haq ▸ by simp [ha])
    refine Eq.trans ?_ (hr.tile x)
    change cover size' _ x = _
    simp only [cover_append,cover_cons,cover_congr hc,cover_congr hd,cover_congr hlive,hsp,hsq]
    split_ifs <;> omega

/-- `take` makes a live block of the size. -/
lemma take_spec {c d : List ℕ} (hr : Ring base h l live) (hsplit : base :: l = c++prevp :: d)
    (hp : p = d.headD base) (h1 : 1 ≤ nunits) (h2 : nunits ≤ h.size p) :
    ∃ q l', (take h nunits prevp p).1 = q+8 ∧ Ring base (take h nunits prevp p).2 l' (q :: live) ∧
      (take h nunits prevp p).2.size q = nunits ∧ ∀ a ∈ live, (take h nunits prevp p).2.size a = h.size a := by
  cases d with
  | nil =>
    obtain rfl : p = base := hp
    rw [hr.base_size] at h2
    omega
  | cons b d =>
    obtain rfl : p = b := hp
    have hpb : p ≠ base := by
      rintro rfl
      rw [hr.base_size] at h2
      omega
    have hpl : p ∈ l := by
      have hmem : p ∈ base :: l := by
        rw [hsplit]
        simp
      exact (mem_cons.mp hmem).resolve_left hpb
    unfold take
    split_ifs with heq
    · obtain ⟨l',hr'⟩ := hr.unlink hsplit
      exact ⟨p,l',rfl,hr',heq,fun a _ => rfl⟩
    · have hprev : prevp ∈ base :: l := by
        rw [hsplit]
        simp
      have hlt : nunits < h.size p := by omega
      obtain ⟨-,hqv⟩ := hr.inside (x := p+8*(h.size p-nunits)) hpl (by omega) (by omega)
      refine ⟨p+8*(h.size p-nunits),l,rfl,hr.cut hpl h1 hlt rfl hprev,update_self ..,fun a ha => ?_⟩
      have hap : a ≠ p := by
        rintro rfl
        exact hr.live_not_mem ha (mem_cons_of_mem base hpl)
      have haq : a ≠ p+8*(h.size p-nunits) := by
        rintro rfl
        exact hqv ha
      exact (update_of_ne haq _ _).trans (update_of_ne hap _ _)

end

section
variable {m n k nunits prev : ℕ} {d : List ℕ} {answer : ℕ → Option ℕ}

section
variable (hl : Chain h.ptr (prev :: d++[h.freep])) (hd : h.freep ∉ d)
include hl hd

lemma mallocLoop_found
    (hfit : ∃ b ∈ d++[h.freep], nunits ≤ h.size b) (hn : d.length < n) :
    ∃ pv ∈ prev :: d, nunits ≤ h.size (h.ptr pv) ∧ mallocLoop m answer nunits n k h prev (h.ptr prev) =
      some ((take h nunits pv (h.ptr pv)).1,(take h nunits pv (h.ptr pv)).2,k) := by
  induction d generalizing prev n with
  | nil =>
    obtain ⟨n,rfl⟩ : ∃ j, n = j+1 := ⟨n-1,by omega⟩
    have hnext : h.ptr prev = h.freep := (isChain_cons_cons.mp hl).1
    obtain ⟨b,hb,hle⟩ := hfit
    obtain rfl : b = h.freep := mem_singleton.mp hb
    rw [← hnext] at hle
    exact ⟨prev,mem_cons_self,hle,by rw [mallocLoop,if_pos hle]⟩
  | cons z d ih =>
    obtain ⟨n,rfl⟩ : ∃ j, n = j+1 := ⟨n-1,by omega⟩
    obtain ⟨hnext,hl⟩ := isChain_cons_cons.mp hl
    rw [mem_cons,not_or] at hd
    by_cases hle : nunits ≤ h.size z
    · rw [← hnext] at hle
      exact ⟨prev,mem_cons_self,hle,by rw [mallocLoop,if_pos hle]⟩
    · obtain ⟨b,hb,hfit⟩ := hfit
      have hb' : b ∈ d++[h.freep] := by
        rcases mem_cons.mp hb with rfl | hb
        · exact absurd hfit hle
        · exact hb
      obtain ⟨pv,hpv,hsize,hloop⟩ := ih hl hd.2 ⟨b,hb',hfit⟩ (Nat.lt_of_succ_lt_succ hn)
      refine ⟨pv,mem_cons_of_mem prev hpv,hsize,?_⟩
      rw [mallocLoop,hnext,if_neg hle,if_neg (Ne.symm hd.1),hloop]

lemma mallocLoop_none
    (hfit : ∀ b ∈ d++[h.freep], ¬ nunits ≤ h.size b) : mallocLoop m answer nunits (n+d.length+1) k h prev (h.ptr prev) =
      match morecore m h (answer k) nunits with
      | none => none
      | some (p,h) => if p = 0 then some (0,h,k+1) else mallocLoop m answer nunits n (k+1) h p (h.ptr p) := by
  induction d generalizing prev with
  | nil =>
    have hnext : h.ptr prev = h.freep := (isChain_cons_cons.mp hl).1
    rw [mallocLoop,hnext,if_neg (hfit h.freep (by simp)),if_pos rfl]
    rfl
  | cons z d ih =>
    obtain ⟨hnext,hl⟩ := isChain_cons_cons.mp hl
    rw [mem_cons,not_or] at hd
    rw [mallocLoop,hnext,if_neg (hfit z (by simp)),if_neg (Ne.symm hd.1)]
    exact ih hl hd.2 fun b hb => hfit b (mem_cons_of_mem z hb)

end

lemma Ring.round (hr : Ring base h l live) : ∃ d, Chain h.ptr (h.freep :: d++[h.freep]) ∧ h.freep ∉ d ∧
    (∀ b, b ∈ h.freep :: d ↔ b ∈ base :: l) ∧ d.length = l.length := by
  obtain ⟨c,e,hce⟩ := append_of_mem hr.freep
  have hnodup := hr.nodup
  have hlen := congrArg List.length hce
  rw [hce] at hnodup
  obtain ⟨-,hne,hdis⟩ := nodup_append.mp hnodup
  refine ⟨e++c,chain_rotate hr.links hce,?_,fun b => ?_,?_⟩
  · intro hmem
    rcases mem_append.mp hmem with hmem | hmem
    · exact (nodup_cons.mp hne).1 hmem
    · exact hdis _ hmem _ mem_cons_self rfl
  · rw [hce]
    simp [or_comm,or_left_comm]
  · simp only [length_append,length_cons] at hlen ⊢
    omega

lemma Ring.found (hr : Ring base h l live) (answer : ℕ → Option ℕ) (h1 : 1 ≤ nunits)
    (hfit : ∃ b ∈ base :: l, nunits ≤ h.size b) (hn : l.length < n) : ∃ q h' l', mallocLoop m answer nunits n k h h.freep (h.ptr h.freep) = some (q+8,h',k) ∧
      Ring base h' l' (q :: live) ∧ h'.size q = nunits ∧ ∀ a ∈ live, h'.size a = h.size a := by
  obtain ⟨d,hl,hd,hmem,hlen⟩ := hr.round
  obtain ⟨b,hb,hle⟩ := hfit
  have hb' : b ∈ d++[h.freep] := by
    have := (hmem b).mpr hb
    simpa [or_comm] using this
  obtain ⟨pv,hpv,hsize,hloop⟩ := mallocLoop_found (m := m) (n := n) (k := k) hl hd ⟨b,hb',hle⟩ (by omega)
  obtain ⟨c,e,hce⟩ := append_of_mem ((hmem pv).mp hpv)
  obtain ⟨q,l',hq,hr',hs,hlive⟩ := take_spec hr hce (hr.next hce).2 h1 hsize
  exact ⟨q,_,l',hloop.trans (by rw [hq]),hr',hs,hlive⟩

/-- The loop ends after at most one call of `morecore`; it fails if no block is large enough and `sbrk` gives none. -/
lemma mallocLoop_spec (answer : ℕ → Option ℕ) (hbase : 0 < base) (hr : Ring base h l live) (h1 : 1 ≤ nunits)
    (hm : l.length < m) (hn : 2^32 ≤ n) : ∃ r h' j, mallocLoop m answer nunits n 0 h h.freep (h.ptr h.freep) = some (r,h',j) ∧ j ≤ 1 ∧
      (r = 0 ↔ (∀ b ∈ base :: l, h.size b < nunits) ∧ h.Refused (answer 0) nunits) ∧
      ((r = 0 ∧ h' = h) ∨ ∃ q l', r = q+8 ∧ Ring base h' l' (q :: live) ∧ h'.size q = nunits ∧
        ∀ a ∈ live, h'.size a = h.size a) := by
  have hlen := hr.length_le
  have hroom := hr.room
  by_cases hfit : ∃ b ∈ base :: l, nunits ≤ h.size b
  · obtain ⟨q,h',l',hloop,hr',hs,hlive⟩ := hr.found (m := m) (n := n) (k := 0) answer h1 hfit (by omega)
    obtain ⟨b,hb,hle⟩ := hfit
    exact ⟨q+8,h',0,hloop,by omega,⟨nofun,fun hno => absurd (hno.1 b hb) (by omega)⟩,.inr ⟨q,l',rfl,hr',hs,hlive⟩⟩
  · obtain ⟨d,hl,hd,hmem,hdl⟩ := hr.round
    have hno : ∀ b ∈ d++[h.freep], ¬ nunits ≤ h.size b := fun b hb hle =>
      hfit ⟨b,(hmem b).mp (by simpa [or_comm] using hb),hle⟩
    obtain ⟨n,rfl⟩ : ∃ i, n = i+d.length+1 := ⟨n-d.length-1,by omega⟩
    rw [mallocLoop_none hl hd hno]
    rcases morecore_spec (n := m) nunits hr hm with ⟨hfail,href⟩ | ⟨h',l',hok,hr',hlive,⟨b,hb,hle⟩,hgive⟩
    · rw [hfail]
      exact ⟨0,h,1,rfl,Nat.le_refl 1,⟨fun _ => ⟨fun b hb => Nat.lt_of_not_le fun hle => hfit ⟨b,hb,hle⟩,href⟩,fun _ => rfl⟩,
        .inl ⟨rfl,rfl⟩⟩
    · rw [hok]
      have hfreep : h'.freep ≠ 0 := by
        rcases mem_cons.mp hr'.freep with hf | hf
        · omega
        · have := hr'.bounds (mem_append_left live hf)
          omega
      simp only [if_neg hfreep]
      have hlen' := hr'.length_le
      have hroom' := hr'.room
      obtain ⟨q,h2,l2,hloop,hr2,hs,hlive2⟩ := hr'.found (m := m) (n := n) (k := 1) answer h1
        ⟨b,mem_cons_of_mem base hb,hle⟩ (by omega)
      exact ⟨q+8,h2,1,hloop,Nat.le_refl 1,⟨nofun,fun hno => absurd hno.2 hgive⟩,.inr ⟨q,l2,rfl,hr2,hs,fun a ha => (hlive2 a ha).trans (hlive a ha)⟩⟩

end

end Xv6Threads.Umalloc
