import Xv6Threads.Umalloc.Integrity

/-! The allocator in 32-bit arithmetic. Sizes, sums of pointers and the argument of `sbrk` wrap, and `sbrk` reads its
argument as an `int`: the kernel adds no memory for 0 and takes memory away for a negative number, and returns the old
end of memory in both cases. While no request is near the top of the range nothing wraps, and the functions are those of
`Umalloc.Model`. A process that stores a header outside its pages is killed. -/
namespace Xv6Threads.Umalloc.Wrapped
open Function List Option Nat
variable {base : ℕ} {h : Heap} {l live : List ℕ}

def units (nbytes : ℕ) : ℕ := (nbytes+8-1)%2^32/8+1

def attach (h : Heap) (b n : ℕ) : Heap :=
  if (b+8*h.size b)%2^32 = n then
    { h with
      size := update h.size b ((h.size b+h.size n)%2^32)
      ptr := update h.ptr b (h.ptr n) }
  else { h with ptr := update h.ptr b n }

def insert (h : Heap) (bp p : ℕ) : Heap := { attach (attach h bp (h.ptr p)) p bp with freep := p }

def free (n : ℕ) (h : Heap) (ap : ℕ) : Option Heap :=
  let bp := (ap+2^32-8)%2^32
  (freeSearch h bp n h.freep).map (insert h bp)

/-- The argument of `sbrk`, an `int`. -/
def asInt (n : ℕ) : ℤ := if n < 2^31 then n else n-2^32

/-- `sys_sbrk` with `growproc`: the old `sz`, or `none` for -1. The process may have called `sbrk` for itself before, and
memory may run out. -/
def sbrk (h : Heap) (answer : Option ℕ) (n : ℕ) : Option ℕ × Heap :=
  let addr := h.brk+answer.getD 0
  if asInt n = 0 then (some addr,{ h with brk := addr })
  else if 0 < asInt n then
    if answer.isSome ∧ addr+n < 2^31 then (some addr,{ h with brk := addr+n, segs := (addr,n) :: h.segs }) else (none,h)
  else
    -- `deallocuvm` does nothing if the new size is not below the old one; `growproc` takes a new size of 0 for a failure
    let newsz := (addr+n)%2^32
    if addr ≤ newsz then (some addr,{ h with brk := addr })
    else
      (if newsz = 0 then none else some addr,
        { h with brk := newsz, segs := h.segs.map fun s => (s.1,min s.2 (newsz-s.1)) })

/-- The units that `morecore` asks for and records. -/
def coreUnits (nu : ℕ) : ℕ := if nu < 4096 then 4096 else nu

/-- What `morecore` passes to `sbrk`. -/
def coreBytes (nu : ℕ) : ℕ := coreUnits nu*8%2^32

/-- The header at `p` is in pages of the process. -/
def Mapped (h : Heap) (p : ℕ) : Prop := p+8 ≤ (h.brk+4095)/4096*4096

instance (h : Heap) (p : ℕ) : Decidable (Mapped h p) := inferInstanceAs (Decidable (_ ≤ _))

def morecore (n : ℕ) (h : Heap) (answer : Option ℕ) (nu : ℕ) : Option (ℕ × Heap) :=
  match sbrk h answer (coreBytes nu) with
  | (none,h) => some (0,h)
  | (some p,h) =>
    -- the store to `hp->s.size` is the first one at the new address
    if Mapped h p then
      (free n { h with size := update h.size p (coreUnits nu) } ((p+8)%2^32)).map fun h => (h.freep,h)
    else none

def take (h : Heap) (nunits prevp p : ℕ) : ℕ × Heap :=
  if h.size p = nunits then ((p+8)%2^32,{ h with ptr := update h.ptr prevp (h.ptr p), freep := prevp })
  else
    let q := (p+8*(h.size p-nunits))%2^32
    ((q+8)%2^32,{ h with
      size := update (update h.size p (h.size p-nunits)) q nunits
      freep := prevp })

/-- The loop of `malloc`, with the calls of `morecore`: the argument of `sbrk` and the units recorded. -/
def mallocLoop (m : ℕ) (answer : ℕ → Option ℕ) (nunits : ℕ) :
    ℕ → List (ℤ × ℕ) → Heap → ℕ → ℕ → Option (ℕ × Heap × List (ℤ × ℕ))
  | 0, _, _, _, _ => none
  | n+1, calls, h, prevp, p =>
    if h.size p ≥ nunits then some ((take h nunits prevp p).1,(take h nunits prevp p).2,calls)
    else if p = h.freep then
      let calls' := calls++[(asInt (coreBytes nunits),coreUnits nunits)]
      match morecore m h (answer calls.length) nunits with
      | none => none
      | some (p,h) => if p = 0 then some (0,h,calls') else mallocLoop m answer nunits n calls' h p (h.ptr p)
    else mallocLoop m answer nunits n calls h p (h.ptr p)

section
variable (base : ℕ)

def malloc (n : ℕ) (h : Heap) (nbytes : ℕ) (answer : ℕ → Option ℕ) : Option (ℕ × Heap × List (ℤ × ℕ)) :=
  let h := h.start base
  mallocLoop n answer (units nbytes) n [] h h.freep (h.ptr h.freep)

def step (s : State) : Label → Option State
  | .malloc nbytes answer =>
    match malloc base bound s.heap nbytes answer with
    | none => none
    | some (p,h,_) => some ⟨h,if p = 0 then s.live else (p,nbytes) :: s.live⟩
  | .free ap =>
    if ap ∈ s.live.map Prod.fst then
      (free bound s.heap ap).map fun h => ⟨h,s.live.eraseP fun b => b.1 = ap⟩
    else none

/-- Any calls of `malloc`, and of `free` with live blocks. -/
def program : System State Label where
  init := (Umalloc.program base).init
  step := step base

end

/-- The request of a call of `malloc` is small. -/
def Modest (_ : State) : Label → Prop
  | .malloc nbytes _ => Small nbytes
  | .free _ => True

section

/-- A block in the lower half of the address space. -/
def Low (h : Heap) (a : ℕ) : Prop := a+8*h.size a < 2^31

lemma Ring.low (hr : Ring base h l live) {a : ℕ} (ha : a ∈ base :: l++live) : Low h a := by
  have hroom := hr.room
  rcases mem_cons.mp ha with rfl | ha
  · have := hr.base_size
    unfold Low
    omega
  · have := hr.bounds ha
    unfold Low
    omega

lemma Ring.ptr_mem (hr : Ring base h l live) {z : ℕ} (hz : z ∈ base :: l) : h.ptr z ∈ base :: l := by
  rcases hr.next_cases hz with h1 | h1
  · exact h1.1
  · rw [h1.1]
    exact mem_cons_self

end

lemma attach_eq {b n : ℕ} (hb : b+8*h.size b < 2^32) (hs : h.size b+h.size n < 2^32) : attach h b n = h.attach b n := by
  unfold attach Heap.attach
  rw [mod_eq_of_lt hb,mod_eq_of_lt hs]

lemma size_attach_le (b n a : ℕ) : (h.attach b n).size a ≤ h.size a+h.size n := by
  unfold Heap.attach
  split_ifs
  · by_cases ha : a = b
    · rw [ha]
      simp
    · simp [update_of_ne ha]
  · exact le_add_right _ _

lemma insert_eq {bp p : ℕ} (hbp : Low h bp) (hp : Low h p) (hn : Low h (h.ptr p)) (hne : p ≠ bp) :
    insert h bp p = h.insert bp p := by
  unfold Low at *
  have h1 : attach h bp (h.ptr p) = h.attach bp (h.ptr p) := attach_eq (by omega) (by omega)
  have hs := size_attach_le (h := h) bp (h.ptr p) bp
  have hsp : (h.attach bp (h.ptr p)).size p = h.size p := by
    unfold Heap.attach
    split_ifs
    · exact update_of_ne hne _ _
    · rfl
  rw [insert,Heap.insert,h1,attach_eq (by omega) (by omega)]

lemma free_eq {n bp : ℕ} (hr : Ring base h l (bp :: live)) (hn : l.length < n) : free n h (bp+8) = Umalloc.free n h (bp+8) := by
  have hlow : Low h bp := Ring.low hr (by simp)
  obtain ⟨c,p,l2,hp⟩ := hr.place
  have hmem : p ∈ base :: l := by
    rw [hp.split]
    simp
  have hne : p ≠ bp := fun hpb => hr.live_not_mem mem_cons_self (hpb ▸ hmem)
  have hbp : (bp+8+2^32-8)%2^32 = bp := by
    unfold Low at hlow
    omega
  have hlp : Low h p := Ring.low hr (mem_append_left _ hmem)
  have hln : Low h (h.ptr p) := Ring.low hr (mem_append_left _ (Ring.ptr_mem hr hmem))
  simp only [free,Umalloc.free,hbp,Nat.add_sub_cancel,hp.search hr hn,map_some,insert_eq hlow hlp hln hne]

section
variable {nunits : ℕ}

/-- The request of `morecore` is a positive `int`. -/
def Positive (nunits : ℕ) : Prop := max nunits 4096*8 < 2^31

lemma coreUnits_eq (nu : ℕ) : coreUnits nu = max nu 4096 := by
  unfold coreUnits
  split_ifs <;> omega

lemma coreBytes_eq (hs : Positive nunits) : coreBytes nunits = coreUnits nunits*8 := by
  unfold Positive at hs
  rw [coreBytes,coreUnits_eq,mod_eq_of_lt (by omega)]

lemma asInt_coreBytes (hs : Positive nunits) :
    asInt (coreBytes nunits) = 8*(coreUnits nunits : ℤ) ∧ 0 < asInt (coreBytes nunits) := by
  rw [coreBytes_eq hs,coreUnits_eq,asInt]
  unfold Positive at hs
  rw [if_pos hs]
  push_cast
  omega

lemma sbrk_eq {n : ℕ} (h0 : 0 < n) (hn : n < 2^31) (answer : Option ℕ) : sbrk h answer n =
      match Umalloc.sbrk h answer n with
      | none => (none,h)
      | some (p,h) => (some p,h) := by
  have hi : asInt n = n := if_pos hn
  rw [sbrk,hi]
  simp only
  rw [if_neg (by omega),if_pos (by omega)]
  rcases answer with _ | gap
  · rfl
  · simp only [Umalloc.sbrk,getD_some,isSome_some,true_and]
    split_ifs <;> rfl

lemma morecore_eq {n : ℕ} (hr : Ring base h l live) (hn : l.length < n) (hs : Positive nunits) (answer : Option ℕ) :
    morecore n h answer nunits = Umalloc.morecore n h answer nunits := by
  have hpos := hs
  unfold Positive at hpos
  have hunits := coreUnits_eq nunits
  rw [morecore,Umalloc.morecore,coreBytes_eq hs,sbrk_eq (by omega) (by omega),
    show (if nunits < 4096 then 4096 else nunits) = coreUnits nunits from rfl]
  rcases answer with _ | gap
  · rfl
  · simp only [Umalloc.sbrk]
    split_ifs with htop
    · have hfresh := hr.fresh (le_add_right h.brk gap) (show 1 ≤ coreUnits nunits by omega) htop
      simp only
      rw [if_pos (show Mapped _ _ by unfold Mapped; simp only; omega),mod_eq_of_lt (by omega),free_eq hfresh hn]
    · rfl

lemma take_eq {prevp p : ℕ} (hp : Low h p) : take h nunits prevp p = Umalloc.take h nunits prevp p := by
  unfold Low at hp
  have hq : (p+8*(h.size p-nunits))%2^32 = p+8*(h.size p-nunits) := mod_eq_of_lt (by omega)
  have hq8 : (p+8*(h.size p-nunits)+8)%2^32 = p+8*(h.size p-nunits)+8 := mod_eq_of_lt (by omega)
  have hp8 : (p+8)%2^32 = p+8 := mod_eq_of_lt (by omega)
  simp only [take,Umalloc.take,hq,hq8,hp8]

lemma mallocLoop_eq {m n : ℕ} (answer : ℕ → Option ℕ) (hbase : 0 < base) (hs : Positive nunits) (hm : 2^31 ≤ m)
    (calls : List (ℤ × ℕ)) {prevp p : ℕ} (hr : Ring base h l live) (hp : p ∈ base :: l) {r : ℕ × Heap × ℕ}
    (hloop : Umalloc.mallocLoop m answer nunits n calls.length h prevp p = some r) :
    ∃ calls', mallocLoop m answer nunits n calls h prevp p = some (r.1,r.2.1,calls') ∧
      ∀ c ∈ calls', c ∈ calls ∨ c = (asInt (coreBytes nunits),coreUnits nunits) := by
  induction n generalizing calls h l prevp p with
  | zero => cases hloop
  | succ n ih =>
    rw [Umalloc.mallocLoop] at hloop
    rw [mallocLoop]
    have hlen := hr.length_le
    have hroom := hr.room
    split_ifs at hloop ⊢ with hfit hfree
    · cases hloop
      rw [take_eq (Ring.low hr (mem_append_left _ hp))]
      exact ⟨calls,rfl,fun c hc => .inl hc⟩
    · have hcore := morecore_eq (n := m) hr (by omega) hs (answer calls.length)
      simp only [hcore]
      rcases (morecore_spec nunits hr (by omega) : (Umalloc.morecore m _ (answer calls.length) nunits = _ ∧ _) ∨ _)
        with ⟨hfail,-⟩ | ⟨h',l',hok,hr',-,-⟩
      · rw [hfail] at hloop ⊢
        cases hloop
        refine ⟨_,rfl,fun c hc => ?_⟩
        simpa using hc
      · rw [hok] at hloop ⊢
        have hne := hr'.freep_pos hbase
        simp only [if_neg hne] at hloop ⊢
        have hlength : calls.length+1 = (calls++[(asInt (coreBytes nunits),coreUnits nunits)]).length := by simp
        rw [hlength] at hloop
        obtain ⟨calls',hc,hall⟩ := ih _ hr' (Ring.ptr_mem hr' hr'.freep) hloop
        refine ⟨calls',hc,fun c hc => ?_⟩
        rcases hall c hc with hin | heq
        · simpa using hin
        · exact .inr heq
    · exact ih calls hr (Ring.ptr_mem hr hp) hloop

end

lemma units_eq {nbytes : ℕ} (hs : Small nbytes) : units nbytes = Umalloc.units nbytes ∧ Positive (Umalloc.units nbytes) :=
  ⟨by rw [units,Umalloc.units,mod_eq_of_lt hs.1],hs.2⟩

variable {s : State}

lemma malloc_eq (hi : Inv base s) {nbytes : ℕ} (hs : Small nbytes) (answer : ℕ → Option ℕ) :
    ∃ r h k calls, Umalloc.malloc base bound s.heap nbytes answer = some (r,h,k) ∧
      malloc base bound s.heap nbytes answer = some (r,h,calls) ∧ ∀ c ∈ calls, c.1 = 8*(c.2 : ℤ) ∧ 0 < c.1 := by
  obtain ⟨r,h,k,hm,-,-⟩ := hi.malloc nbytes answer
  obtain ⟨l,hr,-⟩ := hi.start
  obtain ⟨hu,hpos⟩ := units_eq hs
  obtain ⟨calls,hc,hall⟩ := mallocLoop_eq (m := bound) (n := bound) answer hi.base_pos hpos (by decide) [] hr
    (Ring.ptr_mem hr hr.freep) hm
  refine ⟨r,h,k,calls,hm,by rw [malloc,hu]; exact hc,fun c hc => ?_⟩
  obtain rfl := (hall c hc).resolve_left not_mem_nil
  exact asInt_coreBytes hpos

lemma free_live (hi : Inv base s) {ap : ℕ} (hap : ap ∈ s.live.map Prod.fst) :
    free bound s.heap ap = Umalloc.free bound s.heap ap := by
  obtain ⟨b,hb,rfl⟩ := mem_map.mp hap
  have h8 := (hi.live b hb).1
  rcases hi.heap with ⟨-,-,hnil,-⟩ | ⟨l,hr⟩
  · rw [hnil] at hb
    cases hb
  · obtain ⟨u,v,huv⟩ := append_of_mem (show b.1-8 ∈ s.blocks from mem_map_of_mem hb)
    have hlen := hr.length_le
    have hroom := hr.room
    have hr' := hr.perm (huv ▸ perm_middle)
    have hfree := free_eq (n := bound) hr' (by unfold bound; omega)
    rwa [Nat.sub_add_cancel h8] at hfree

lemma step_eq {s t : State} (hi : Inv base s) {lab : Label} (hok : Modest s lab) (hstep : step base s lab = some t) :
    s.step base lab = some t := by
  cases lab with
  | malloc nbytes answer =>
    obtain ⟨r,h,k,calls,hm,hw,-⟩ := malloc_eq hi hok answer
    simp only [step,hw] at hstep
    simp only [State.step,if_pos (show Small nbytes from hok),hm]
    exact hstep
  | free ap =>
    simp only [step] at hstep
    simp only [State.step]
    split_ifs at hstep ⊢ with hap
    rw [← free_live hi hap]
    exact hstep

/-- What `malloc` promises: the bytes asked for, in memory from `sbrk`, and calls of `sbrk` for what is recorded. -/
def Honours (base : ℕ) (h : Heap) (nbytes : ℕ) (answer : ℕ → Option ℕ) : Prop :=
  ∃ r h' calls, malloc base bound h nbytes answer = some (r,h',calls) ∧
    (r ≠ 0 → ∃ q, r = q+8 ∧ q+8+nbytes ≤ q+8*h'.size q ∧
      ∀ x, q ≤ x → x < q+8*h'.size q → ∃ m ∈ h'.segs, m.1 ≤ x ∧ x < m.1+m.2) ∧
    ∀ c ∈ calls, c.1 = 8*(c.2 : ℤ) ∧ 0 < c.1

lemma honours_small (hi : Inv base s) {nbytes : ℕ} (hs : Small nbytes) (answer : ℕ → Option ℕ) :
    Honours base s.heap nbytes answer := by
  obtain ⟨r,h',k,calls,hm,hw,hcalls⟩ := malloc_eq hi hs answer
  refine ⟨r,h',calls,hw,fun hr => ?_,hcalls⟩
  obtain ⟨r',h2,k',hm',-,hcase⟩ := hi.malloc nbytes answer
  rw [hm] at hm'
  cases hm'
  obtain ⟨q,l,rfl,hring,hsize,-⟩ := hcase.resolve_left fun h0 => hr h0.1
  have hbytes := (units_le nbytes).1
  refine ⟨q,rfl,by omega,fun x h1 h2 => ?_⟩
  -- the blocks tile the memory of `sbrk`
  have hcover : 0 < cover h'.size (l++q :: s.blocks) x := cover_pos (by simp) h1 h2
  rw [hring.tile,owned,countP_pos_iff] at hcover
  obtain ⟨m,hm,hin⟩ := hcover
  exact ⟨m,hm,of_decide_eq_true hin⟩

section
variable {m n nunits r prevp p : ℕ} {answer : ℕ → Option ℕ} {calls calls' : List (ℤ × ℕ)} {h' : Heap}

lemma mallocLoop_calls (hl : mallocLoop m answer nunits n calls h prevp p = some (r,h',calls')) : calls ⊆ calls' := by
  induction n generalizing calls h prevp p with
  | zero => cases hl
  | succ n ih =>
    rw [mallocLoop] at hl
    split_ifs at hl
    · cases hl
      exact Subset.refl _
    · simp only at hl
      split at hl
      · cases hl
      · split_ifs at hl
        · cases hl
          exact subset_append_left _ _
        · exact fun c hc => ih hl (mem_append_left _ hc)
    · exact ih hl

/-- If no block is large enough, `morecore` is called. -/
lemma mallocLoop_asks (hr : Ring base h l live) (hp : p ∈ base :: l) (hno : ∀ b ∈ base :: l, h.size b < nunits)
    (hl : mallocLoop m answer nunits n calls h prevp p = some (r,h',calls')) :
    (asInt (coreBytes nunits),coreUnits nunits) ∈ calls' := by
  induction n generalizing prevp p with
  | zero => cases hl
  | succ n ih =>
    rw [mallocLoop,if_neg (Nat.not_le.mpr (hno p hp))] at hl
    split_ifs at hl
    · simp only at hl
      split at hl
      · cases hl
      · split_ifs at hl
        · cases hl
          simp
        · exact mallocLoop_calls hl (by simp)
    · exact ih (Ring.ptr_mem hr hp) hl

end

/-- A request whose size in bytes is no positive `int` makes `morecore` call `sbrk` with it. -/
lemma not_honours_huge (hi : Inv base s) {nbytes : ℕ} (hn : nbytes+7 < 2^32) (hs : ¬Small nbytes) (answer : ℕ → Option ℕ) :
    ¬Honours base s.heap nbytes answer := by
  rintro ⟨r,h',calls,hm,-,hcalls⟩
  obtain ⟨l,hr,-⟩ := hi.start
  have hroom := hr.room
  have hu : units nbytes = (nbytes+7)/8+1 := by rw [units,mod_eq_of_lt (by omega)]; rfl
  have hbig : 2^28 ≤ units nbytes ∧ units nbytes ≤ 2^29 := by
    have : ¬(max (Umalloc.units nbytes) 4096*8 < 2^31) := fun h => hs ⟨by omega,h⟩
    unfold Umalloc.units at this
    omega
  have hno : ∀ b ∈ base :: l, (s.heap.start base).size b < units nbytes := by
    intro b hb
    have : Low (s.heap.start base) b := Ring.low hr (mem_append_left _ hb)
    unfold Low at this
    omega
  have hc := (hcalls _ (mallocLoop_asks hr (Ring.ptr_mem hr hr.freep) hno hm)).2
  have hcore : coreUnits (units nbytes) = units nbytes := by rw [coreUnits_eq,Nat.max_eq_left (by omega)]
  unfold asInt coreBytes at hc
  rw [hcore] at hc
  split_ifs at hc <;> omega

lemma Ring.ptr_base (hr : Ring base h l live) : h.ptr base = base ↔ l = [] := by
  rw [(hr.next (c := []) rfl).2]
  cases l with
  | nil => exact ⟨fun _ => rfl,fun _ => rfl⟩
  | cons a l => exact ⟨fun hp => absurd hp (ne_of_gt (rel_of_pairwise_cons hr.sorted mem_cons_self)),nofun⟩

/-- A size that wraps is that of an empty request. -/
lemma malloc_zero {nbytes : ℕ} (h1 : 2^32-7 ≤ nbytes) (h2 : nbytes < 2^32) (answer : ℕ → Option ℕ) :
    malloc base bound h nbytes answer = malloc base bound h 0 answer := by
  have hu : units nbytes = units 0 := by
    unfold units
    omega
  rw [malloc,malloc,hu]

/-- An empty request is refused just if no block is free and `sbrk` gives no memory. -/
lemma malloc_null (hi : Inv base s) {answer : ℕ → Option ℕ} {r k : ℕ} {h' : Heap}
    (hm : Umalloc.malloc base bound s.heap 0 answer = some (r,h',k)) :
    r = 0 ↔ (s.heap.start base).ptr base = base ∧ (s.heap.start base).Refused (answer 0) 1 := by
  obtain ⟨l,hr,-⟩ := hi.start
  have hlen := hr.length_le
  have hroom := hr.room
  obtain ⟨r',h2,k',hloop,-,hnull,-⟩ := mallocLoop_spec (m := bound) (n := bound) answer hi.base_pos hr
    (units_le 0).2 (by unfold bound; omega) (by decide)
  cases hm.symm.trans hloop
  rw [hnull,Ring.ptr_base hr,show Umalloc.units 0 = 1 from rfl]
  refine and_congr_left fun _ => ⟨fun hno => eq_nil_iff_forall_not_mem.mpr fun b hb => ?_,?_⟩
  · have := hno b (mem_cons_of_mem base hb)
    have := hr.pos b (mem_append_left _ hb)
    omega
  · rintro rfl b hb
    rw [mem_singleton.mp hb,hr.base_size]
    exact Nat.one_pos

/-- The request is a positive `int` for `morecore`, after the rounding. -/
def Asks (_ : State) : Label → Prop
  | .malloc nbytes _ => nbytes < 2^32 ∧ Positive (units nbytes)
  | .free _ => True

instance (s : State) : (lab : Label) → Decidable (Asks s lab)
  | .malloc _ _ => inferInstanceAs (Decidable (_ ∧ _ < _))
  | .free _ => .isTrue trivial

/-- A request is small, or its rounding wraps. -/
lemma small_or_wraps {nbytes : ℕ} (hn : nbytes < 2^32) (hp : Positive (units nbytes)) : Small nbytes ∨ 2^32-7 ≤ nbytes := by
  by_cases hw : 2^32-7 ≤ nbytes
  · exact .inr hw
  · refine .inl ⟨by omega,?_⟩
    rwa [units,mod_eq_of_lt (by omega)] at hp

/-- The invariant of the heap, with the sizes of the requests forgotten. -/
def Sound (base : ℕ) (s : State) : Prop :=
  ∃ live, live.map Prod.fst = s.live.map Prod.fst ∧ Inv base ⟨s.heap,live⟩

lemma map_eraseP_fst (xs : List (ℕ × ℕ)) (ap : ℕ) :
    (xs.eraseP fun b => b.1 = ap).map Prod.fst = (xs.map Prod.fst).erase ap := by
  induction xs with
  | nil => rfl
  | cons x xs ih =>
    by_cases hx : x.1 = ap
    · simp [hx]
    · simp [hx,ih]

lemma Sound.step {t : State} {lab : Label} (hs : Sound base s) (hok : Asks s lab) (ht : step base s lab = some t) : Sound base t := by
  obtain ⟨live,hmap,hi⟩ := hs
  cases lab with
  | malloc nbytes answer =>
    obtain ⟨n,hsmall,heq⟩ : ∃ n, Small n ∧ malloc base bound s.heap nbytes answer = malloc base bound s.heap n answer := by
      rcases small_or_wraps hok.1 hok.2 with hn | hn
      · exact ⟨nbytes,hn,rfl⟩
      · exact ⟨0,by decide,malloc_zero hn hok.1 answer⟩
    obtain ⟨r,h',k,calls,hm,hw,-⟩ := malloc_eq hi hsmall answer
    simp only [Wrapped.step,heq,hw] at ht
    cases ht
    have hstep : (State.mk s.heap live).step base (.malloc n answer) = some ⟨h',if r = 0 then live else (r,n) :: live⟩ := by
      simp only [State.step,if_pos hsmall,hm]
    refine ⟨_,?_,hi.step hstep⟩
    split_ifs
    · exact hmap
    · simp [hmap]
  | free ap =>
    simp only [Wrapped.step] at ht
    split_ifs at ht with hap
    obtain ⟨h',hf,rfl⟩ := map_eq_some_iff.mp ht
    have hap' : ap ∈ live.map Prod.fst := hmap ▸ hap
    have hstep : (State.mk s.heap live).step base (.free ap) = some ⟨h',live.eraseP fun b => b.1 = ap⟩ := by
      simp only [State.step,if_pos hap',← free_live hi hap',hf,map_some]
    refine ⟨_,?_,hi.step hstep⟩
    rw [map_eraseP_fst,map_eraseP_fst,hmap]

lemma sound_of_asks (h : (program base).ReachWhile Asks s) : Sound base s :=
  System.ReachWhile.invariant (M := program base) (I := Sound base) (fun s hs => ⟨s.live,rfl,inv_of_init hs⟩)
    (fun _ _ _ hi hok ht => hi.step hok ht) h

/-- A request that wraps gets a header alone, so `malloc` keeps its promise only where it fails. -/
lemma honours_wraps (hi : Inv base s) {nbytes : ℕ} (h1 : 2^32-7 ≤ nbytes) (h2 : nbytes < 2^32) (answer : ℕ → Option ℕ) :
    Honours base s.heap nbytes answer ↔
      (s.heap.start base).ptr base = base ∧ (s.heap.start base).Refused (answer 0) 1 := by
  obtain ⟨r,h',k,calls,hm,hw,hcalls⟩ := malloc_eq hi (show Small 0 by decide) answer
  have hnull := malloc_null hi hm
  rw [← malloc_zero h1 h2] at hw
  rw [← hnull]
  refine ⟨fun ⟨r',h2',calls',hm',hblock,_⟩ => by_contra fun hr => ?_,fun hr => ⟨r,h',calls,hw,absurd hr,hcalls⟩⟩
  cases hw.symm.trans hm'
  obtain ⟨q,rfl,hroom,-⟩ := hblock hr
  obtain ⟨r'',h3,k',hm3,-,hcase⟩ := hi.malloc 0 answer
  cases hm.symm.trans hm3
  obtain ⟨q',l,hq,-,hsize,-⟩ := hcase.resolve_left fun h0 => hr h0.1
  obtain rfl : q = q' := by omega
  rw [hsize] at hroom
  unfold Umalloc.units at hroom
  omega

/-- After any calls whose rounded requests are positive `int`s, a request is honoured just if it is small, or if its
rounding wraps and it is refused: no block is free and `sbrk` fails. -/
theorem malloc_honours (h : (program base).ReachWhile Asks s) {nbytes : ℕ} (hn : nbytes < 2^32) (answer : ℕ → Option ℕ) :
    Honours base s.heap nbytes answer ↔ Small nbytes ∨
      (2^32-7 ≤ nbytes ∧ (s.heap.start base).ptr base = base ∧ (s.heap.start base).Refused (answer 0) 1) := by
  obtain ⟨live,-,hi⟩ := sound_of_asks h
  by_cases hw : 2^32-7 ≤ nbytes
  · have hns : ¬Small nbytes := fun hs => by have := hs.1; omega
    rw [show s.heap = (State.mk s.heap live).heap from rfl,honours_wraps hi hw hn answer]
    simp only [hns,hw,false_or,true_and]
  · simp only [hw,false_and,or_false]
    exact ⟨fun hh => by_contra fun hs => not_honours_huge hi (by omega) hs answer hh,fun hs => honours_small hi hs answer⟩

/-- After a request for `2^32-1` bytes, one for 10 bytes is honoured though `sbrk` fails: the block is from memory that
the first one left. -/
theorem malloc_honours_ten : ∃ s, (program 16).Reachable s ∧ s.live = [(36864,2^32-1)] ∧
    Honours 16 s.heap 10 (fun _ => none) ∧ (malloc 16 bound s.heap 10 fun _ => none).map Prod.fst = some 36840 := by
  obtain ⟨s,hs,hlive,hten⟩ := System.reachWhile_of_exec (M := program 16) (fun s lab => decide (Asks s lab))
    (fun _ _ h => of_decide_eq_true h) [.malloc (2^32-1) fun _ => some 0]
    (fun s => s.live = [(36864,2^32-1)] ∧ (malloc 16 bound s.heap 10 fun _ => none).map Prod.fst = some 36840)
    (s := fresh) ⟨rfl,rfl,rfl,by decide,by decide,by decide⟩ (by decide +kernel)
  exact ⟨s,hs.reachable,hlive,(malloc_honours hs (by decide) _).mpr (.inl (by decide)),hten⟩

/-- The first call of a program, for `2^32-1` bytes: the rounding wraps, and the block of one unit is a header alone. And
for `2^31` bytes: `sbrk` is called with a negative number, and the process is killed when `morecore` stores the header. -/
theorem malloc_wraps :
    ((malloc 16 bound fresh.heap (2^32-1) fun _ => some 0).map fun x => (x.1,x.2.1.size (x.1-8))) = some (36864,1) ∧
    asInt (coreBytes (units (2^31))) = 8-2^31 ∧ malloc 16 bound fresh.heap (2^31) (fun _ => some 0) = none := by
  refine ⟨by decide +kernel,by decide +kernel,isNone_iff_eq_none.mp ?_⟩
  decide +kernel

end Xv6Threads.Umalloc.Wrapped
