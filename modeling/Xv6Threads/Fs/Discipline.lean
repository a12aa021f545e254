import Xv6Threads.Fs.Contract

/-! Every system call keeps to the contract. -/
namespace Xv6Threads.Fs
open Function List Prod Prog

variable {P : Type} {ser : Prop} {m : Bool} {p : P} {L : List ℕ} {s t : State P}

lemma At.congr {K : List ℕ} (h : At ser p L s) (hK : ∀ j, j ∈ L ↔ j ∈ K) : At ser p K s :=
  ⟨fun j => (h.locks j).trans (hK j),h.cwd,h.noLoop⟩

lemma At.swap {i d : ℕ} (h : At ser p [i,d] s) : At ser p [d,i] s :=
  h.congr (fun j => by simp only [mem_cons,or_left_comm])

lemma noLoop_putSlot {d k : ℕ} {e : Dirent} {n : Int16} {y : IType} (he : e.inum = d → e.inum ≠ 0 → isDots e.name)
    (hy : y = (s.ino d).type) (hi : t.ino = update s.ino d ⟨y,n,putSlot (s.ino d).ents k e⟩)
    (hn : NoLoop s) : NoLoop t := by
  intro j hj x hx hxj h0
  rw [hi] at hj hx
  by_cases hjd : j = d
  · subst hjd
    rw [update_self] at hj hx
    rcases mem_putSlot hx with rfl | hx
    · exact he hxj h0
    · exact hn j (hy ▸ hj) x hx hxj h0
  · rw [update_of_ne hjd] at hj hx
    exact hn j hj x hx hxj h0

lemma noLoop_nil {i : ℕ} {x : Inode} (hx : x.ents = []) (hi : t.ino = update s.ino i x) (hn : NoLoop s) : NoLoop t := by
  intro j hj e he hej h0
  rw [hi] at hj he
  by_cases hji : j = i
  · subst hji
    rw [update_self,hx] at he
    cases he
  · rw [update_of_ne hji] at hj he
    exact hn j hj e he hej h0

lemma freeInode_some {f : ℕ → Inode} {i : ℕ} (h : freeInode f = some i) : i < ninodes ∧ i ≠ 0 ∧ (f i).type = .free := by
  unfold freeInode at h
  exact ⟨mem_range.mp (mem_of_find?_eq_some h),by simpa using List.find?_some h⟩

lemma noLoop_lookup {d i k : ℕ} {n : List UInt8} (hn : NoLoop s) (hd : (s.ino d).type = .dir)
    (h : lookup n (s.ino d).ents 0 = some (i,k)) (hdots : ¬isDots n) : i ≠ d := by
  rintro rfl
  obtain ⟨-,e,he,hei,h0,ht⟩ := lookup_some h
  refine hdots ?_
  have := hn i hd e (mem_of_getElem? he) hei (by rwa [hei])
  unfold isDots at this ⊢
  rwa [ht] at this

lemma Kept.dir {d : ℕ} (h : Kept ser m L s t) (hd : d ∈ L) (ht : (s.ino d).type = .dir) :
    (t.ino d).type = .dir ∧ (t.ino d).ents = (s.ino d).ents := by
  obtain ⟨h1,h2⟩ := mk.inj (h.ino d hd (by rw [ht]; nofun))
  exact ⟨h1.trans ht,h2⟩

lemma Kept.not_dir {i : ℕ} (h : Kept ser m L s t) (hs : ser) (hm : m = true) (hi : (s.ino i).type ≠ .dir) :
    (t.ino i).type ≠ .dir := by
  rcases h.others hs hm i with h | h <;> rw [(mk.inj h).1]
  · exact hi
  · nofun

variable [DecidableEq P] {α : Type} {Q : α → State P → Prop}

section
variable {Q : Unit → State P → Prop} {i : ℕ}

lemma wp_ilock (hA : At ser p L s) (hs : ser → i ∉ L ∧ (m = false → L = []))
    (h : ∀ t, At ser p (i :: L) t → i ∉ L → Kept ser m L s t → Q () t) : (ilock i).wp (contract ser m p) Q s :=
  wp_quiet hA rfl (fun _ _ _ hA hK _ _ => wp_acquiresleep hA hs (fun _ hA hi hK' => wp_quiet hA rfl
    (fun _ _ _ hA hK'' _ _ => wp_ret hA (fun t hA hK3 =>
      h t hA hi (hK.trans (hK'.trans (hK''.trans hK3).mono))))))

lemma wp_iunlock (hA : At ser p (i :: L) s) (hi : i ∉ L) (h : ∀ t, At ser p L t → Kept ser m L s t → Q () t) :
    (iunlock i).wp (contract ser m p) Q s :=
  wp_quiet hA rfl (fun _ _ _ hA hK _ _ => wp_releasesleep hA hi (fun _ hA hK' =>
    wp_ret hA (fun t hA hK'' => h t hA (hK.mono.trans (hK'.trans hK'')))))

lemma wp_iput (hA : At ser p L s) (hs : ser → i ∉ L ∧ (m = false → L = []))
    (h : ∀ t, At ser p L t → Kept ser m L s t → Q () t) : (iput i).wp (contract ser m p) Q s := by
  refine wp_acquiresleep hA hs (fun t hA hi hK => wp_quiet hA rfl (fun _ b u hA hK' _ _ => ?_))
  have hout : ∀ u, At ser p (i :: L) u → Kept ser m L s u →
      (iputLocked i false).wp (contract ser m p) Q u := fun u hA hKu =>
    wp_releasesleep hA hi (fun _ hA hK1 => wp_quiet hA rfl (fun _ _ _ hA hK2 _ _ => wp_ret hA (fun t hA hK3 =>
      h t hA (hKu.trans (hK1.trans (hK2.trans hK3))))))
  cases b with
  | false => exact hout u hA (hK.trans hK'.mono)
  | true =>
    refine wp_store hA (fun _ _ _ => trivial) (fun t r u hAt hK'' hu => ⟨i,freed,?_⟩)
    cases hu
    refine ⟨rfl,rfl,rfl,.inl ((hAt.locks i).mpr mem_cons_self),fun _ _ => rfl,
      fun _ => noLoop_nil (x := freed) rfl rfl,fun hA => hout _ hA ?_⟩
    refine (hK.trans (hK'.trans hK'').mono).trans ⟨fun j hj _ => ?_,fun _ _ j => ?_⟩
    · have hj' : j ≠ i := by
        rintro rfl
        exact hi hj
      change (update t.ino i _ j).body = _
      rw [update_of_ne hj']
    · change (update t.ino i _ j).body = _ ∨ (update t.ino i _ j).body = _
      by_cases hj : j = i
      · rw [hj,update_self]
        exact .inr rfl
      · rw [update_of_ne hj]
        exact .inl rfl

lemma wp_iunlockput (hA : At ser p (i :: L) s) (hi : i ∉ L) (hm : ser → m = false → L = [])
    (h : ∀ t, At ser p L t → Kept ser m L s t → Q () t) : (iunlockput i).wp (contract ser m p) Q s :=
  wp_bind (wp_iunlock hA hi (fun _ hA hK => wp_iput hA (fun hs => ⟨hi,hm hs⟩) (fun t hA hK' => h t hA (hK.trans hK'))))

end

section
variable {d i : ℕ} {n : List UInt8}

lemma wp_dirlookup {Q : Option (ℕ × ℕ) → State P → Prop} (hA : At ser p L s) (hd : d ∈ L)
    (h : ∀ t, At ser p L t → Kept ser m L s t → (t.ino d).type = .dir → Q (lookup n (t.ino d).ents 0) t) :
    (dirlookup d n).wp (contract ser m p) Q s := by
  refine wp_quiet hA rfl (fun t r u hA hK hu _ => ?_)
  simp only [handle] at hu
  split_ifs at hu with ht
  cases hu
  have hend : ∀ v, At ser p L v → Kept ser m L t v → Q (lookup n (t.ino d).ents 0) v := by
    intro v hv hKv
    obtain ⟨hd',he⟩ := hKv.dir hd ht
    rw [← he]
    exact h v hv (hK.trans hKv) hd'
  cases hl : lookup n (t.ino d).ents 0 with
  | none =>
    rw [hl] at hend
    exact wp_ret hA hend
  | some x =>
    rw [hl] at hend
    exact wp_quiet hA rfl (fun _ _ v hA hK' _ _ => wp_ret hA (fun w hA hK'' => hend w hA (hK'.trans hK'')))

lemma wp_dirlink {Q : Bool → State P → Prop} (hA : At ser p L s) (hd : d ∈ L) (hm : m = true) (h0 : i ≠ 0)
    (hfail : ser → ∀ t j k, At ser p L t → Kept ser m L s t → (t.ino d).type = .dir →
      lookup n (t.ino d).ents 0 = some (j,k) → j ∉ L)
    (hloop : ser → ∀ t, At ser p L t → Kept ser m L s t → (t.ino d).type = .dir → i = d → isDots n)
    (hno : ∀ t u j k, Kept ser m L s t → (t.ino d).type = .dir → lookup n (t.ino d).ents 0 = some (j,k) →
      At ser p L u → Q false u)
    (hyes : ∀ t u, Kept ser m L s t → (t.ino d).type = .dir → lookup n (t.ino d).ents 0 = none →
      At ser p L u → Kept ser m L (enter t d n i) u → Q true u) : (dirlink d n i).wp (contract ser m p) Q s := by
  refine wp_bind (wp_dirlookup hA hd (fun t hA hK ht => ?_))
  cases hl : lookup n (t.ino d).ents 0 with
  | some x =>
    refine wp_bind (wp_iput hA (fun hs => ⟨hfail hs t x.1 x.2 hA hK ht hl,fun h => by rw [hm] at h; cases h⟩)
      (fun u hA _ => wp_ret hA (fun v hA _ => hno t v x.1 x.2 hK ht hl hA)))
  | none =>
    refine wp_quiet hA rfl (fun _ k u hA hK' hu hi => ?_)
    cases hu
    obtain ⟨htu,heu⟩ := hK'.dir hd ht
    refine wp_store hA (fun v hA hK'' => ?_) (fun v r w hA hK'' hw => ?_)
    · obtain ⟨-,hev⟩ := hK''.dir hd htu
      exact ⟨(hA.locks d).mpr hd,by rw [hev,heu]; exact hl,by rw [hev],h0⟩
    · obtain ⟨htv,hev⟩ := hK''.dir hd htu
      obtain ⟨x,hx,he⟩ := map_ok hw
      cases he
      unfold State.writeDirent at hx
      split_ifs at hx
      cases hx
      have hsv := hK.trans (hK'.trans hK'')
      refine ⟨d,_,rfl,rfl,rfl,.inl ((hA.locks d).mpr hd),(fun _ h => by rw [hm] at h; cases h),
        fun hs => noLoop_putSlot (fun h _ => ?_) rfl rfl,fun hA => ?_⟩
      · have := hloop hs v hA hsv htv h
        unfold isDots at this ⊢
        rwa [text_strncpy]
      · refine wp_ret hA (fun y hA hK3 => hyes v y hsv htv (by rw [hev,heu]; exact hl) hA ?_)
        rw [← hev] at hK3
        exact hK3

end

section

lemma wp_alone {i : ℕ} (_ : ser) : i ∉ ([] : List ℕ) ∧ (m = false → ([] : List ℕ) = []) := ⟨not_mem_nil,fun _ => rfl⟩


variable {Q : Option (ℕ × List UInt8) → State P → Prop}

/-- No lock is held between the rounds of `namex`. -/
lemma wp_namexLoop {parent : Bool} {k i : ℕ} {path n : List UInt8}
    (hA : At ser p [] s) (hi : i ≠ 0) (h : ∀ r t, At ser p [] t → Kept ser m [] s t →
      (∀ d x, r = some (d,x) → d ≠ 0 ∧ (parent = true → (elems k path).getLast? = some x)) → Q r t) :
    (namexLoop parent k path i n).wp (contract ser m p) Q s := by
  induction k generalizing path i n s with
  | zero => exact wp_ret hA (fun t hA hK => h none t hA hK (fun _ _ h => by cases h))
  | succ k ih =>
    have hnone : ∀ {t : State P}, At ser p [] t → Kept ser m [] s t →
        (pure none : Code (Option (ℕ × List UInt8))).wp (contract ser m p) Q t :=
      fun hA hK => wp_ret hA (fun t hA hK' => h none t hA (hK.trans hK') (fun _ _ h => by cases h))
    unfold namexLoop
    cases hsk : skipelem path with
    | none =>
      dsimp only
      split_ifs with hp
      · exact wp_bind (wp_iput hA wp_alone (fun t hA hK => hnone hA hK))
      · exact wp_ret hA (fun t hA hK => h _ t hA hK (fun d x hx => by cases hx; exact ⟨hi,fun hp' => (hp hp').elim⟩))
    | some x =>
      obtain ⟨name,rest⟩ := x
      dsimp only
      have hbad : ∀ {u : State P}, At ser p [i] u → Kept ser m [] s u →
          (do iunlockput i; pure none : Code (Option (ℕ × List UInt8))).wp (contract ser m p) Q u := fun hA hK =>
        wp_bind (wp_iunlockput hA not_mem_nil (fun _ _ => rfl) (fun t hA hK' => hnone hA (hK.trans hK')))
      refine wp_bind (wp_ilock hA wp_alone (fun t hA _ hKt => wp_op hA rfl (fun _ ty u hA hKu _ _ => ?_)))
      have hKsu := hKt.trans hKu.mono
      split_ifs with hty hpar
      · exact hbad hA hKsu
      · refine wp_bind (wp_iunlock hA not_mem_nil (fun t hA hKt => wp_ret hA (fun v hA hKv =>
          h _ v hA (hKsu.trans (hKt.trans hKv)) (fun d x hx => ?_))))
        cases hx
        refine ⟨hi,fun _ => ?_⟩
        rw [elems,hsk,hpar.2]
        simp only [elems_nil]
        rfl
      · refine wp_bind (wp_dirlookup hA mem_cons_self (fun v hA hKv _ => ?_))
        cases hl : lookup name (v.ino i).ents 0 with
        | none => exact hbad hA (hKsu.trans hKv.mono)
        | some y =>
          obtain ⟨-,e,-,-,hy,-⟩ := lookup_some hl
          refine wp_bind (wp_iunlockput hA not_mem_nil (fun _ _ => rfl) (fun t hA hKt => ih hA hy (fun r w hA hKw hr =>
            h r w hA (hKsu.trans (hKv.mono.trans (hKt.trans hKw))) ?_)))
          intro d x hx
          obtain ⟨hd,hr⟩ := hr d x hx
          refine ⟨hd,fun hp => ?_⟩
          have hlast := hr hp
          rw [elems,hsk]
          change (name :: elems k rest).getLast? = some x
          cases he : elems k rest with
          | nil => rw [he] at hlast; cases hlast
          | cons a l => rw [he] at hlast; exact hlast

lemma wp_namex {parent : Bool} {path : List UInt8} (hA : At ser p [] s)
    (h : ∀ r t, At ser p [] t → Kept ser m [] s t →
      (∀ d x, r = some (d,x) → d ≠ 0 ∧ (parent = true → lastElem path = some x)) → Q r t) : (namex parent path).wp (contract ser m p) Q s := by
  have hstart : ∀ {Q : ℕ → State P → Prop}, (∀ i t, i ≠ 0 → At ser p [] t → Kept ser m [] s t → Q i t) →
      (namexStart path).wp (contract ser m p) Q s := by
    intro Q hQ
    unfold namexStart
    split_ifs
    · exact wp_quiet hA rfl (fun _ _ _ hA hK _ _ => wp_ret hA (fun t hA hK' => hQ _ t (by decide) hA (hK.trans hK')))
    · refine wp_quiet hA rfl (fun _ i u hA hK hu _ => ?_)
      have hi : i ≠ 0 := by
        cases hu
        exact hA.cwd
      exact wp_quiet hA rfl (fun _ _ _ hA hK' _ _ =>
        wp_ret hA (fun t hA hK'' => hQ _ t hi hA (hK.trans (hK'.trans hK''))))
  exact wp_bind (hstart (fun i t hi hA hK => wp_namexLoop hA hi (fun r u hA hK' => h r u hA (hK.trans hK'))))

end

section
variable {Q : ℤ → State P → Prop}

lemma wp_none {a : α} {Q' : α → State P → Prop} (hA : At ser p L s) (h : ∀ a t, At ser p L t → Q' a t) : (pure a : Code α).wp (contract ser m p) Q' s :=
  wp_ret hA (fun t hA _ => h a t hA)

variable {i : ℕ}

lemma wp_unlockput_end {a : α} {Q : α → State P → Prop} (hA : At ser p [i] s) (h : ∀ a t, At ser p [] t → Q a t) :
    (do iunlockput i; pure a : Code α).wp (contract ser m p) Q s :=
  wp_bind (wp_iunlockput hA not_mem_nil (fun _ _ => rfl) (fun _ hA _ => wp_none hA h))

lemma wp_setLink {n : Int16} {f : Unit → Code α} {Q : α → State P → Prop} (hA : At ser p L s) (hi : i ∈ L) (hm : m = true)
    (h : ∀ t, At ser p L t → Kept ser m L s t → (f ()).wp (contract ser m p) Q t) :
    (op (S := fs) (.setLink i n) >>= f).wp (contract ser m p) Q s := by
  refine wp_store hA (fun _ _ _ => trivial) (fun t r u hAt hK hu => ⟨i,{t.ino i with nlink := n},?_⟩)
  cases hu
  have hbody : ∀ j, (update t.ino i {t.ino i with nlink := n} j).body = (t.ino j).body := by
    intro j
    by_cases hj : j = i
    · subst hj
      rw [update_self]
      rfl
    · rw [update_of_ne hj]
  refine ⟨rfl,rfl,rfl,.inl ((hAt.locks i).mpr hi),(fun _ h => by rw [hm] at h; cases h),fun _ hn d hd e he => ?_,
    fun hA => h _ hA (hK.trans ⟨fun j _ _ => hbody j,fun _ _ j => .inl (hbody j)⟩)⟩
  obtain ⟨h1,h2⟩ := mk.inj (hbody d)
  exact hn d (h1 ▸ hd) e (h2 ▸ he)

lemma wp_linkBad (hA : At ser p [] s) (hm : m = true) (h : ∀ a t, At ser p [] t → Q a t) :
    (linkBad i).wp (contract ser m p) Q s :=
  wp_bind (wp_ilock hA wp_alone (fun _ hA _ _ => wp_op hA rfl (fun _ _ _ hA _ _ _ =>
    wp_setLink hA mem_cons_self hm (fun _ hA _ => wp_unlockput_end hA h))))

lemma wp_sysLink {old new : List UInt8} (hA : At ser p [] s) (hm : m = true)
    (hdots : ser → ∀ n, lastElem new = some n → ¬isDots n) (h : ∀ a t, At ser p [] t → Q a t) :
    (sysLink old new).wp (contract ser m p) Q s := by
  refine wp_bind (wp_namex hA (fun r t hA _ hr => ?_))
  rcases r with _ | ⟨i,_⟩
  · exact wp_none hA h
  refine wp_bind (wp_ilock hA wp_alone (fun t hA _ _ => wp_op hA rfl (fun _ ty u hA _ hu hi => ?_)))
  split_ifs with hty
  · exact wp_unlockput_end hA h
  -- From here on the inode is not a directory, also when nobody has it locked.
  have hfile : (u.ino i).type ≠ .dir := by
    cases hu
    exact hty
  refine wp_op hA rfl (fun _ n v hA hKv _ _ => wp_setLink hA mem_cons_self hm (fun w hA hKw =>
    wp_bind (wp_iunlock hA not_mem_nil (fun x hA hKx => wp_bind (wp_namex hA (fun r y hA hKy hlast => ?_))))))
  have hKuy := (hKv.trans hKw).mono.trans (hKx.trans hKy)
  rcases r with _ | ⟨d,name⟩
  · exact wp_linkBad hA hm h
  have hname : ser → ¬isDots name := fun hs => hdots hs name ((hlast d name rfl).2 rfl)
  refine wp_bind (wp_ilock hA wp_alone (fun z hA _ hKz => ?_))
  have hend : ∀ {ok : Bool} {x : State P}, At ser p [d] x →
      (do iunlockput d; if ok then do iput i; pure 0 else linkBad i : Code ℤ).wp (contract ser m p) Q x := by
    intro ok x hA
    refine wp_bind (wp_iunlockput hA not_mem_nil (fun _ _ => rfl) (fun y hA _ => ?_))
    split_ifs
    · exact wp_bind (wp_iput hA wp_alone (fun _ hA _ => wp_none hA h))
    · exact wp_linkBad hA hm h
  refine wp_bind (wp_dirlink hA mem_cons_self hm (hr i _ rfl).1 (fun hs x j k hA _ hd hl => ?_) (fun hs x _ hKx hd hid => ?_)
    (fun _ x _ _ _ _ _ hA => hend hA) (fun _ x _ _ _ hA _ => hend hA))
  · rw [mem_singleton]
    exact noLoop_lookup (hA.noLoop hs) hd hl (hname hs)
  · refine ((hKuy.trans (hKz.trans hKx.mono)).not_dir hs hm hfile ?_).elim
    rw [hid]
    exact hd

lemma wp_require {e : Panic} {b : Bool} {Q : Unit → State P → Prop} (hA : At ser p L s)
    (h : ∀ t, b = true → At ser p L t → Kept ser m L s t → Q () t) : (require e b).wp (contract ser m p) Q s := by
  unfold require
  split_ifs with hb
  · exact wp_ret hA (fun t hA hK => h t hb hA hK)
  · exact wp_quiet hA rfl (fun _ _ _ _ _ hu _ => by cases hu)

lemma wp_unlockput_first {i d : ℕ} {Q : Unit → State P → Prop} (hA : At ser p [i,d] s) (hid : i ≠ d) (hm : m = true)
    (h : ∀ t, At ser p [i] t → Q () t) : (iunlockput d).wp (contract ser m p) Q s :=
  wp_iunlockput hA.swap (fun hd => hid (mem_singleton.mp hd).symm) (fun _ h => by rw [hm] at h; cases h)
    (fun t hA _ => h t hA)

variable {ty : IType}

lemma wp_unlinkEntry {d k i j : ℕ} {n : List UInt8} (hA : At ser p [i,d] s) (hid : i ≠ d) (hm : m = true)
    (hd : (s.ino d).type = .dir) (hl : lookup n (s.ino d).ents 0 = some (j,k)) (h : ∀ a t, At ser p [] t → Q a t) :
    (unlinkEntry d k n i ty).wp (contract ser m p) Q s := by
  have hmem : d ∈ [i,d] := mem_cons_of_mem i mem_cons_self
  have hrest : ∀ {u : State P}, At ser p [i,d] u →
      (do iunlockput d; let x ← inodeLinks i; op (S := fs) (.setLink i (x-1)); iunlockput i; pure 0 : Code ℤ).wp
        (contract ser m p) Q u := fun hA =>
    wp_bind (wp_unlockput_first hA hid hm (fun _ hA => wp_op hA rfl (fun _ _ _ hA _ _ _ =>
      wp_setLink hA mem_cons_self hm (fun _ hA _ => wp_unlockput_end hA h))))
  refine wp_store hA (fun t hA hK => ?_) (fun t r u hAt hK hu => ?_)
  · obtain ⟨-,he⟩ := hK.dir hmem hd
    exact ⟨(hA.locks d).mpr hmem,j,by rw [he]; exact hl⟩
  · obtain ⟨x,hx,he⟩ := map_ok hu
    cases he
    unfold State.writeDirent at hx
    split_ifs at hx
    cases hx
    refine ⟨d,_,rfl,rfl,rfl,.inl ((hAt.locks d).mpr hmem),(fun _ h => by rw [hm] at h; cases h),
      fun _ => noLoop_putSlot (fun _ h0 => (h0 rfl).elim) rfl rfl,fun hA => wp_bind ?_⟩
    unfold unlinkDotdot
    split_ifs
    · refine wp_op hA rfl (fun _ _ _ hA _ _ _ => ?_)
      exact wp_setLink (f := ret) hA hmem hm (fun _ hA _ => wp_ret hA (fun _ hA _ => hrest hA))
    · exact wp_ret hA (fun _ hA _ => hrest hA)

lemma wp_sysUnlink {path : List UInt8} (hA : At ser p [] s) (hm : m = true) (h : ∀ a t, At ser p [] t → Q a t) :
    (sysUnlink path).wp (contract ser m p) Q s := by
  refine wp_bind (wp_namex hA (fun r t hA _ _ => ?_))
  rcases r with _ | ⟨d,name⟩
  · exact wp_none hA h
  refine wp_bind (wp_ilock hA wp_alone (fun u hA _ _ => ?_))
  split_ifs with hdots
  · exact wp_unlockput_end hA h
  have hname : ¬isDots name := fun hn => hdots (hn.imp namecmp_eq_zero.mpr namecmp_eq_zero.mpr)
  refine wp_bind (wp_dirlookup hA mem_cons_self (fun v hA _ hd => ?_))
  cases hl : lookup name (v.ino d).ents 0 with
  | none => exact wp_unlockput_end hA h
  | some x =>
    obtain ⟨i,k⟩ := x
    refine wp_bind (wp_ilock hA (fun hs => ⟨?_,fun h => by rw [hm] at h; cases h⟩) (fun w hA hi hKw => ?_))
    · rw [mem_singleton]
      exact noLoop_lookup (hA.noLoop hs) hd hl hname
    have hid : i ≠ d := fun h => hi (h ▸ mem_cons_self)
    refine wp_op hA rfl (fun _ n x hA hKx _ _ => wp_bind (wp_require hA (fun y _ hA hKy =>
      wp_op hA rfl (fun _ ty z hA hKz _ _ => wp_bind ?_))))
    have hend : ∀ {e : Bool} {b : State P}, At ser p [i,d] b → Kept ser m [i,d] z b →
        (if e then unlinkEntry d k name i ty else do iunlockput i; iunlockput d; pure (-1) : Code ℤ).wp
          (contract ser m p) Q b := by
      intro e b hA hKb
      obtain ⟨hd',he⟩ := (hKw.trans ((hKx.trans (hKy.trans (hKz.trans hKb))).mono)).dir mem_cons_self hd
      split_ifs
      · exact wp_unlinkEntry hA hid hm hd' (by rw [he]; exact hl) h
      · exact wp_bind (wp_iunlockput hA hi (fun _ h => by rw [hm] at h; cases h) (fun _ hA _ => wp_unlockput_end hA h))
    unfold isdirempty
    split_ifs
    · exact wp_quiet hA rfl (fun _ e b hA hKb _ _ => wp_ret hA (fun _ hA hK => hend hA (hKb.trans hK)))
    · exact wp_ret hA (fun _ hA hK => hend hA hK)

lemma wp_createDots {d i : ℕ} {Q : Unit → State P → Prop} (hA : At ser p [i,d] s) (hid : i ≠ d) (hi : i ≠ 0)
    (hd0 : d ≠ 0) (hm : m = true) (hd : (s.ino d).type = .dir) (he : ser → (s.ino i).ents = [])
    (h : ∀ t, At ser p [i,d] t → (t.ino d).type = .dir → (t.ino d).ents = (s.ino d).ents → Q () t) :
    (createDots d i ty).wp (contract ser m p) Q s := by
  have hmem : d ∈ [i,d] := mem_cons_of_mem i mem_cons_self
  unfold createDots
  split_ifs
  swap
  · refine wp_ret hA (fun t hA hK => ?_)
    obtain ⟨h1,h2⟩ := hK.dir hmem hd
    exact h t hA h1 h2
  refine wp_op hA rfl (fun _ _ u hA hKu _ _ => wp_setLink hA hmem hm (fun v hA hKv => wp_bind ?_))
  have hKv := hKu.trans hKv
  -- The new directory has no entries yet, and afterwards only `.`.
  have hnil : ser → ∀ {w : State P}, Kept ser m [i,d] v w → (w.ino i).ents = [] := by
    intro hs w hKw
    rcases (hKv.trans hKw).others hs hm i with h | h <;> rw [(mk.inj h).2]
    · exact he hs
    · rfl
  refine wp_dirlink hA mem_cons_self hm hi (fun hs t j k _ hKt _ hl => ?_) (fun _ _ _ _ _ _ => .inl rfl)
    (fun _ _ _ _ _ _ _ hA => wp_bind (wp_require hA nofun)) (fun t w hKt hti _ hA hKw => wp_bind (wp_require hA
      (fun x _ hA hKx => wp_bind ?_)))
  · rw [hnil hs hKt] at hl
    cases hl
  have hdot : ser → ∀ {y : State P}, Kept ser m [i,d] x y → (y.ino i).type = .dir →
      (y.ino i).ents = [⟨i,strncpy dirSiz dot⟩] := by
    intro hs y hKy hy
    have hbody := (hKw.trans (hKx.trans hKy)).others hs hm i
    rcases hbody with h | h
    · rw [(mk.inj h).2,enter_ents,hnil hs hKt]
      rfl
    · rw [(mk.inj h).1] at hy
      cases hy
  obtain ⟨htd,hte⟩ := (hKv.trans hKt).dir hmem hd
  have hent : (enter t i dot i).ino d = t.ino d := update_of_ne hid.symm ..
  obtain ⟨hxd,hxe⟩ := (hKw.trans hKx).dir hmem (hent ▸ htd)
  rw [hent,hte] at hxe
  refine wp_dirlink hA mem_cons_self hm hd0 (fun hs y j k _ hKy hy hl => ?_) (fun _ _ _ _ _ _ => .inr rfl)
    (fun _ _ _ _ _ _ _ hA => wp_require hA nofun) (fun y z hKy _ _ hA hKz => wp_require hA (fun c _ hA hKc => ?_))
  · rw [hdot hs hKy hy] at hl
    obtain ⟨-,e,he,-,-,htext⟩ := lookup_some hl
    have hmem := mem_of_getElem? he
    rw [mem_singleton] at hmem
    rw [hmem] at htext
    exact absurd ((text_strncpy dirSiz dot).symm.trans htext) (by decide)
  · obtain ⟨hyd,hye⟩ := hKy.dir hmem hxd
    have hent' : (enter y i dotdot d).ino d = y.ino d := update_of_ne hid.symm ..
    obtain ⟨hcd,hce⟩ := (hKz.trans hKc).dir hmem (hent' ▸ hyd)
    rw [hent',hye,hxe] at hce
    exact h c hA hcd hce

lemma wp_createNew {d : ℕ} {n : List UInt8} {Q : ℕ → State P → Prop} (hA : At ser p [d] s) (hm : m = true)
    (hd0 : d ≠ 0) (hd : (s.ino d).type = .dir) (hl : lookup n (s.ino d).ents 0 = none) (h : ∀ i t, At ser p [i] t → Q i t) :
    (createNew d n ty).wp (contract ser m p) Q s := by
  have hmem : ∀ i, d ∈ [i,d] := fun i => mem_cons_of_mem i mem_cons_self
  refine wp_bind (wp_store hA (fun _ _ _ => trivial) (fun t i u _ hKt hu => ?_))
  simp only [handle] at hu
  split at hu
  swap
  · cases hu
  next hf =>
  cases hu
  obtain ⟨-,h0,hti⟩ := freeInode_some hf
  obtain ⟨htd,hte⟩ := hKt.dir mem_cons_self hd
  have hid : i ≠ d := by
    rintro rfl
    rw [hti] at htd
    cases htd
  refine ⟨i,_,rfl,rfl,rfl,.inr hti,(fun _ h => by rw [hm] at h; cases h),fun _ => noLoop_nil rfl rfl,fun hA => ?_⟩
  -- The new inode `i` has no entries; others can at most free it.
  have hud : (t.setIno i ⟨ty,0,[]⟩).ino d = t.ino d := update_of_ne hid.symm ..
  have hui : ((t.setIno i ⟨ty,0,[]⟩).ino i).ents = [] := by
    change (update t.ino i _ i).ents = _
    rw [update_self]
  refine wp_op hA rfl (fun _ _ v hA hKv _ _ => wp_ret hA (fun w hA hKw => ?_))
  refine wp_bind (wp_ilock hA (fun _ => ⟨fun hi => hid (mem_singleton.mp hi),fun h => by rw [hm] at h; cases h⟩)
    (fun x hA hi hKx => wp_setLink hA mem_cons_self hm (fun y hA hKy => wp_bind ?_)))
  have hKuy := (hKv.trans hKw).trans (hKx.trans hKy.mono)
  obtain ⟨hyd,hye⟩ := hKuy.dir mem_cons_self (hud ▸ htd)
  rw [hud,hte] at hye
  refine wp_createDots hA hid h0 hd0 hm hyd (fun hs => ?_) (fun z hA hzd hze => wp_bind ?_)
  · rcases hKuy.others hs hm i with h | h <;> rw [(mk.inj h).2]
    · exact hui
    · rfl
  rw [hye] at hze
  have habs : ∀ {b : State P} {j k : ℕ}, Kept ser m [i,d] z b → (b.ino d).type = .dir → lookup n (b.ino d).ents 0 = some (j,k) →
      False := by
    intro b j k hKb _ hlb
    rw [(hKb.dir (hmem i) hzd).2,hze,hl] at hlb
    cases hlb
  exact wp_dirlink hA (hmem i) hm h0 (fun _ b j k _ hKb hbd hlb => (habs hKb hbd hlb).elim) (fun _ _ _ _ _ h => (hid h).elim)
    (fun b _ j k hKb hbd hlb _ => (habs hKb hbd hlb).elim) (fun _ c _ _ _ hA _ => wp_bind (wp_require hA (fun b _ hA _ =>
      wp_bind (wp_unlockput_first hA hid hm (fun e hA => wp_ret hA (fun t hA _ => h i t hA))))))

lemma wp_create {path : List UInt8} {Q : Option ℕ → State P → Prop} (hA : At ser p [] s) (hm : m = true)
    (hno : ∀ t, At ser p [] t → Q none t) (hyes : ∀ i t, At ser p [i] t → Q (some i) t) :
    (create path ty).wp (contract ser m p) Q s := by
  refine wp_bind (wp_namex hA (fun r t hA _ hr => ?_))
  rcases r with _ | ⟨d,name⟩
  · exact wp_ret hA (fun t hA _ => hno t hA)
  refine wp_bind (wp_ilock hA wp_alone (fun u hA _ _ => wp_bind (wp_dirlookup hA mem_cons_self (fun v hA _ hd => ?_))))
  cases hl : lookup name (v.ino d).ents 0 with
  | none => exact wp_bind (wp_createNew hA hm (hr d name rfl).1 hd hl (fun i t hA => wp_ret hA (fun t hA _ => hyes i t hA)))
  | some x =>
    refine wp_bind (wp_iunlockput hA not_mem_nil (fun _ _ => rfl) (fun w hA _ => wp_bind (wp_ilock hA wp_alone
      (fun y hA _ _ => wp_op hA rfl (fun _ ty' z hA _ _ _ => ?_)))))
    split_ifs
    · exact wp_ret hA (fun t hA _ => hyes x.1 t hA)
    · exact wp_bind (wp_iunlockput hA not_mem_nil (fun _ _ => rfl) (fun _ hA _ => wp_ret hA (fun t hA _ => hno t hA)))

lemma wp_openInode (hA : At ser p [i] s) (h : ∀ a t, At ser p [] t → Q a t) :
    (openInode i).wp (contract ser m p) Q s := by
  refine wp_op hA rfl (fun _ r t hA _ _ _ => ?_)
  cases r with
  | none => exact wp_unlockput_end hA h
  | some fd => exact wp_bind (wp_iunlock hA not_mem_nil (fun _ hA _ => wp_none hA h))

/-- What a call may assume about its arguments: the last name that `link` enters is not `.` or `..`. -/
def Call.Proper : Call → Prop
  | .link _ new => ∀ n, lastElem (cstring new) = some n → ¬isDots n
  | _ => True

/-- The call changes names. -/
def Call.changes : Call → Bool
  | .link _ _ | .unlink _ | .create _ | .mkdir _ | .mknod _ => true
  | _ => false

lemma wp_fileclose {f : ℕ} {Q : Unit → State P → Prop} (hA : At ser p [] s) (h : ∀ t, At ser p [] t → Q () t) :
    (fileclose f).wp (contract ser m p) Q s := by
  refine wp_op hA rfl (fun _ r t hA _ _ _ => ?_)
  cases r with
  | none => exact wp_ret hA (fun t hA _ => h t hA)
  | some i => exact wp_iput hA wp_alone (fun t hA _ => h t hA)

lemma wp_closeAll {k : ℕ} {Q : Unit → State P → Prop} (hA : At ser p [] s) (h : ∀ t, At ser p [] t → Q () t) :
    (closeAll k).wp (contract ser m p) Q s := by
  induction k generalizing Q with
  | zero => exact wp_ret hA (fun t hA _ => h t hA)
  | succ k ih =>
    refine wp_bind (ih (fun t hA => wp_op hA rfl (fun _ r u hA _ _ _ => ?_)))
    cases r with
    | none => exact wp_ret hA (fun t hA _ => h t hA)
    | some f =>
      exact wp_bind (wp_fileclose hA (fun t hA => wp_quiet hA rfl (fun _ _ u hA _ _ _ => wp_ret hA (fun t hA _ => h t hA))))

lemma wp_transfer {i k : ℕ} {Q : Unit → State P → Prop} (hA : At ser p [] s) (h : ∀ t, At ser p [] t → Q () t) :
    (transfer i k).wp (contract ser m p) Q s := by
  induction k generalizing s with
  | zero => exact wp_ret hA (fun t hA _ => h t hA)
  | succ k ih =>
    exact wp_bind (wp_ilock hA wp_alone (fun t hA _ _ => wp_bind (wp_iunlock hA not_mem_nil (fun u hA _ => ih hA))))

/-- Every call keeps to the contract, and has no lock when it returns. -/
lemma wp_code (c : Call) (hA : At ser p [] s) (hc : ser → c.Proper) :
    c.code.wp (contract ser c.changes p) (fun _ t => At ser p [] t) s := by
  have hend : ∀ (_ : ℤ) (t : State P), At ser p [] t → At ser p [] t := fun _ _ h => h
  have hmake : ∀ (path : List UInt8) (ty : IType),
      (sysMake path ty).wp (contract ser true p) (fun _ t => At ser p [] t) s := fun path ty =>
    wp_bind (wp_create hA rfl (fun t hA => wp_none hA hend) (fun i t hA => wp_unlockput_end hA hend))
  cases c with
  | link old new => exact wp_sysLink hA rfl hc hend
  | unlink path => exact wp_sysUnlink hA rfl hend
  | create path =>
    exact wp_bind (wp_create hA rfl (fun t hA => wp_none hA hend) (fun i t hA => wp_openInode hA hend))
  | mkdir path => exact hmake _ _
  | mknod path => exact hmake _ _
  | openFile path rdonly =>
    refine wp_bind (wp_namex hA (fun r t hA _ _ => ?_))
    rcases r with _ | ⟨i,-⟩
    · exact wp_none hA hend
    refine wp_bind (wp_ilock hA wp_alone (fun t hA _ _ => wp_op hA rfl (fun _ ty u hA _ _ _ => ?_)))
    split_ifs
    · exact wp_unlockput_end hA hend
    · exact wp_openInode hA hend
  | chdir path =>
    refine wp_bind (wp_namex hA (fun r t hA _ hr => ?_))
    rcases r with _ | ⟨i,_⟩
    · exact wp_none hA hend
    refine wp_bind (wp_ilock hA wp_alone (fun t hA _ _ => wp_op hA rfl (fun _ ty u hA _ _ _ => ?_)))
    split_ifs
    · exact wp_unlockput_end hA hend
    · exact wp_bind (wp_iunlock hA not_mem_nil (fun _ hA _ => wp_op hA rfl (fun _ old _ hA _ _ _ =>
        wp_bind (wp_iput hA wp_alone (fun _ hA _ => wp_setCwd hA (hr i _ rfl).1 (fun _ hA _ => wp_none hA hend))))))
  | exec path =>
    refine wp_bind (wp_namex hA (fun r t hA _ _ => ?_))
    rcases r with _ | ⟨i,-⟩
    · exact wp_none hA hend
    exact wp_bind (wp_ilock hA wp_alone (fun t hA _ _ => wp_unlockput_end hA hend))
  | transfer fd k =>
    refine wp_op hA rfl (fun _ r t hA _ _ _ => ?_)
    cases r with
    | none => exact wp_none hA hend
    | some f =>
      refine wp_op hA rfl (fun _ r t hA _ _ _ => ?_)
      cases r with
      | none => exact wp_none hA hend
      | some i => exact wp_bind (wp_transfer hA (fun t hA => wp_none hA hend))
  | dup fd =>
    refine wp_op hA rfl (fun _ r t hA _ _ _ => ?_)
    cases r with
    | none => exact wp_none hA hend
    | some fd' => exact wp_none hA hend
  | close fd =>
    refine wp_op hA rfl (fun _ r t hA _ _ _ => ?_)
    cases r with
    | none => exact wp_none hA hend
    | some f => exact wp_op hA rfl (fun _ _ t hA _ _ _ => wp_bind (wp_fileclose hA (fun t hA => wp_none hA hend)))
  | exit =>
    exact wp_bind (wp_closeAll hA (fun t hA => wp_op hA rfl (fun _ i _ hA _ _ _ =>
      wp_bind (wp_iput hA wp_alone (fun _ hA _ => wp_op hA rfl (fun _ _ _ hA _ _ _ => wp_none hA hend))))))

end

end Xv6Threads.Fs
