import Xv6Threads.Fs.Deadlock

/-! Under any interleaving a directory is a map from names to inodes, and `dirlink` and `unlink`
update it. -/
namespace Xv6Threads.Fs
open Function Option State System.ReachWhile Prog

/-- The inode that the last link or unlink of `n` has given it. -/
def latest (n : List UInt8) : List Event → Option ℕ
  | [] => none
  | .linked m i :: h => if text dirSiz m = text dirSiz n then some i else latest n h
  | .unlinked m :: h => if text dirSiz m = text dirSiz n then none else latest n h

/-- Between two links of a name there is an unlink of it. -/
def linkedOnce : List Event → Prop
  | [] => True
  | .linked n _ :: h => latest n h = none ∧ linkedOnce h
  | .unlinked _ :: h => linkedOnce h

/-- The slots `l` of a directory are what its history makes of them. -/
structure IsMap (l : List Dirent) (h : List Event) : Prop where
  distinct : Distinct l
  latest : ∀ n i, Named l n i ↔ latest n h = some i
  once : linkedOnce h

/-- What an instruction does to a directory and its history. -/
inductive Change (l : List Dirent) (h : List Event) : List Dirent → List Event → Prop
  | same : Change l h l h
  | clear : Change l h [] []
  | link (n i) (hn : lookup n l 0 = none) (hi : i ≠ 0) :
      Change l h (putSlot l (emptySlot l) ⟨i,strncpy dirSiz n⟩) (.linked n i :: h)
  | unlink (n i k) (hn : lookup n l 0 = some (i,k)) :
      Change l h (putSlot l k ⟨0,List.replicate dirSiz 0⟩) (.unlinked n :: h)

section
variable {l l' : List Dirent} {h h' : List Event}

lemma isMap_nil : IsMap [] [] := ⟨distinct_nil,fun _ _ => ⟨fun h => (not_named_nil h).elim,nofun⟩,trivial⟩

lemma IsMap.lookup (hM : IsMap l h) (n : List UInt8) : (lookup n l 0).map Prod.fst = Fs.latest n h := by
  refine Option.ext (fun i => ?_)
  rw [lookup_iff hM.distinct,hM.latest]

lemma IsMap.latest_none {n : List UInt8} (hM : IsMap l h) : Fs.latest n h = none ↔ Fs.lookup n l 0 = none := by
  rw [← hM.lookup,map_eq_none_iff]

lemma IsMap.change (hM : IsMap l h) (hc : Change l h l' h') : IsMap l' h' := by
  cases hc with
  | same => exact hM
  | clear => exact isMap_nil
  | link n i hn hi =>
    have hno : ∀ m j, text dirSiz m = text dirSiz n → ¬Named l m j := by
      rintro m j hm ⟨k,e,he,hej,h0,hen⟩
      exact lookup_none hn ⟨k,e,he,hej,h0,hen.trans hm⟩
    refine ⟨distinct_putSlot hM.distinct (emptySlot_le l) (fun _ j => hno _ j (text_strncpy dirSiz n)),fun m j => ?_,
      hM.latest_none.mpr hn,hM.once⟩
    rw [named_link hi,Fs.latest]
    split_ifs with hnm
    · refine ⟨fun hj => ?_,fun hj => .inl ⟨hnm,(some.inj hj).symm⟩⟩
      rcases hj with ⟨-,rfl⟩ | hj
      · rfl
      · exact (hno m j hnm.symm hj).elim
    · rw [← hM.latest]
      exact ⟨fun hj => hj.resolve_left (fun hj => hnm hj.1),.inr⟩
  | unlink n i k hn =>
    refine ⟨distinct_putSlot hM.distinct (lookup_slot_lt hn).le (fun h0 => (h0 rfl).elim),fun m j => ?_,hM.once⟩
    rw [named_unlink hM.distinct hn,Fs.latest]
    split_ifs with hnm
    · exact ⟨fun hj => (hj.1 hnm).elim,nofun⟩
    · rw [← hM.latest]
      exact ⟨fun hj => hj.2,fun hj => ⟨hnm,hj⟩⟩

lemma isMap_image (hl : Distinct l) : IsMap l (linkedAll l) := by
  induction l with
  | nil => exact isMap_nil
  | cons e l ih =>
    have htail : Distinct l := by
      intro j k x y hx hy hx0 hy0 hxy
      exact Nat.succ.inj (hl (j+1) (k+1) x y hx hy hx0 hy0 hxy)
    obtain ⟨-,hlat,honce⟩ := ih htail
    have hcons : ∀ n i, Named (e :: l) n i ↔ (e.inum = i ∧ i ≠ 0 ∧ text dirSiz e.name = text dirSiz n) ∨ Named l n i := by
      intro n i
      constructor
      · rintro ⟨k,x,hx,hr⟩
        cases k with
        | zero => cases hx; exact .inl hr
        | succ k => exact .inr ⟨k,x,hx,hr⟩
      · rintro (hr | ⟨k,x,hx,hr⟩)
        · exact ⟨0,e,rfl,hr⟩
        · exact ⟨k+1,x,hx,hr⟩
    by_cases h0 : e.inum = 0
    · have hall : linkedAll (e :: l) = linkedAll l := by simp [linkedAll,h0]
      rw [hall]
      refine ⟨hl,fun n i => ?_,honce⟩
      rw [hcons,← hlat,h0]
      exact ⟨fun h => h.resolve_left (fun h => h.2.1 h.1.symm),.inr⟩
    · have hall : linkedAll (e :: l) = .linked e.name e.inum :: linkedAll l := by simp [linkedAll,h0]
      -- No later slot has the name of the first.
      have hno : ∀ n i, text dirSiz e.name = text dirSiz n → ¬Named l n i := by
        rintro n i hn ⟨k,x,hx,rfl,hx0,hxn⟩
        exact absurd (hl 0 (k+1) e x rfl hx h0 hx0 (hn.trans hxn.symm)) (by omega)
      rw [hall]
      refine ⟨hl,fun n i => ?_,eq_none_iff_forall_ne_some.mpr (fun i hi => hno _ i rfl ((hlat _ i).mpr hi)),honce⟩
      rw [hcons,Fs.latest]
      split_ifs with hn
      · constructor
        · rintro (⟨rfl,-,-⟩ | h)
          · rfl
          · exact (hno n i hn h).elim
        · rintro ⟨rfl⟩
          exact .inl ⟨rfl,h0,hn⟩
      · rw [← hlat]
        exact ⟨fun h => h.resolve_left (fun h => hn h.2.2),.inr⟩

end

variable {P : Type} [DecidableEq P] {ser : Prop} {m : Bool} {p : P}

section
variable {s t : State P} {i : Instr} {r : i.Reply}

variable (h : handle p i s = .ok (r,t)) (hm : may ser m p i s)
include h hm

lemma change_handle (hist : ℕ → List Event) (d : ℕ) :
    Change (s.ino d).ents (hist d) (t.ino d).ents (record hist i r d) := by
  have hsame : t.ino = s.ino → record hist i r = hist → Change (s.ino d).ents (hist d) (t.ino d).ents (record hist i r d) :=
    fun hi hr => by rw [hi,hr]; exact .same
  -- An instruction that writes inode `j`.
  have hset : ∀ (j : ℕ) (x : Inode) (e : List Event), t.ino = update s.ino j x →
      record hist i r = update hist j e → Change (s.ino j).ents (hist j) x.ents e →
      Change (s.ino d).ents (hist d) (t.ino d).ents (record hist i r d) := by
    intro j x e hi hr hc
    rw [hi,hr]
    by_cases hd : d = j
    · subst hd
      rw [update_self,update_self]
      exact hc
    · rw [update_of_ne hd,update_of_ne hd]
      exact .same
  cases i with
  | setCwd i => cases h; exact hsame rfl rfl
  | acquiresleep i | releasesleep i =>
    simp only [handle] at h
    split_ifs at h
    cases h
    exact hsame rfl rfl
  | setLink i n =>
    cases h
    exact hset i _ (hist i) rfl (update_eq_self i hist).symm .same
  | link d' k n i =>
    obtain ⟨u,hu,he⟩ := map_ok h
    cases he
    obtain ⟨-,hn,rfl,hi⟩ := hm
    unfold writeDirent at hu
    split_ifs at hu
    cases hu
    exact hset d' _ _ rfl rfl (.link n i hn hi)
  | unlink d' k n =>
    obtain ⟨u,hu,he⟩ := map_ok h
    cases he
    obtain ⟨-,i,hn⟩ := hm
    unfold writeDirent at hu
    split_ifs at hu
    cases hu
    exact hset d' _ _ rfl rfl (.unlink n i k hn)
  | ialloc ty =>
    simp only [handle] at h
    split at h <;> cases h
    exact hset _ _ [] rfl rfl .clear
  | free i => cases h; exact hset i _ [] rfl rfl .clear
  | _ => exact hsame (handle_quiet h rfl).ino rfl

lemma cwd_handle (hs : ∀ q, (s.proc q).cwd ≠ 0) (q : P) : (t.proc q).cwd ≠ 0 := by
  cases i with
  | setCwd j =>
    cases h
    change (update s.proc p _ q).cwd ≠ 0
    by_cases hq : q = p
    · subst hq
      rw [update_self]
      exact hm
    · rw [update_of_ne hq]
      exact hs q
  | acquiresleep i | releasesleep i =>
    simp only [handle] at h
    split_ifs at h
    cases h
    exact hs q
  | link | unlink =>
    obtain ⟨u,hu,he⟩ := map_ok h
    cases he
    unfold writeDirent at hu
    split_ifs at hu
    cases hu
    exact hs q
  | ialloc ty =>
    simp only [handle] at h
    split at h <;> cases h
    exact hs q
  | setLink | free => cases h; exact hs q
  | _ =>
    rw [(handle_quiet h rfl).cwd]
    exact hs q

end

/-- Every directory is the map of its history. -/
structure Mapped (s : Sys P) : Prop where
  map : ∀ d, IsMap (s.fs.ino d).ents (s.hist d)
  cwd : ∀ p, (s.fs.proc p).cwd ≠ 0

variable {s : Sys P}

omit [DecidableEq P] in
lemma mapped_boot (h : Boot s) : Mapped s where
  map d := by
    rw [h.hist d]
    exact isMap_image (h.distinct d)
  cwd p := by
    rw [h.cwd]
    decide

lemma mapped_step {s t : Sys P} {l : SysLabel P} (hT : Tame ser s) (hM : Mapped s) (h : s.step l = some t) : Mapped t := by
  obtain ⟨hf,hh⟩ | ⟨p,q,hf,hh⟩ | ⟨p,c,i,r,hu,hm,-,hh⟩ := did_step hT h
  · exact ⟨fun d => by rw [hf,hh]; exact hM.map d,fun p => by rw [hf]; exact hM.cwd p⟩
  · refine ⟨fun d => by rw [hf,hh]; exact hM.map d,fun r => ?_⟩
    rw [hf]
    change (update s.fs.proc q (s.fs.proc p) r).cwd ≠ 0
    by_cases hr : r = q
    · rw [hr,update_self]
      exact hM.cwd p
    · rw [update_of_ne hr]
      exact hM.cwd r
  · refine ⟨fun d => ?_,cwd_handle hu hm hM.cwd⟩
    rw [hh]
    exact (hM.map d).change (change_handle hu hm s.hist d)

lemma reach_mapped (h : (interleaved P).Reachable s) : Mapped s :=
  invariant_on (J := Tame False) (fun _ h => reach_tame nofun h) (fun s (hs : Boot s) => mapped_boot hs)
    (fun _ _ _ hT hM _ ht => mapped_step hT hM ht) h

lemma noLoop_step {s t : Sys P} {l : SysLabel P} (hT : Tame True s) (hn : NoLoop s.fs) (h : s.step l = some t) :
    NoLoop t.fs := by
  obtain ⟨hf,-⟩ | ⟨p,q,hf,-⟩ | ⟨p,c,i,r,-,-,hg,-⟩ := did_step hT h
  · rw [hf]
    exact hn
  · rw [hf]
    exact noLoop_congr (s := s.fs) (t := s.fs.fork p q) rfl hn
  · exact hg.noLoop trivial hn

lemma reach_noLoop (h : (interleaved P).ReachWhile serial s) : NoLoop s.fs :=
  invariant_on (J := Tame True) (I := fun s => NoLoop s.fs) (fun _ h => reach_tame (fun _ _ _ h => h) h)
    (fun s (hs : Boot s) => hs.noLoop) (fun _ _ _ hT hn _ ht => noLoop_step hT hn ht) h

section
variable {s : State P} {d i j k : ℕ} {n : List UInt8}

lemma alone_iput {E : Err → Prop} {Q : Unit → State P → Prop} (hj : s.lock j = none) (hQ : ∀ t, Q () t) :
    (iput j).wp (.alone (handle p) E) Q s := by
  -- The lock is still held when it is released.
  have hlock : update s.lock j (some p) j = some p := update_self ..
  have hrest : ∀ u : State P, u.lock j = some p → (iputLocked j false).wp (.alone (handle p) E) Q u := fun u hu =>
    alone_ok (if_pos hu) (alone_ok rfl (alone_ret (hQ _)))
  refine alone_ok (if_pos hj) (alone_ok rfl ?_)
  change (iputLocked j (s.unused j)).wp _ _ _
  cases s.unused j with
  | false => exact hrest _ hlock
  | true => exact alone_ok rfl (hrest _ hlock)

lemma run_dirlink_some (hd : (s.ino d).type = .dir) (hl : lookup n (s.ino d).ents 0 = some (j,k)) (hj : s.lock j = none) :
    (∃ t, (dirlink d n i).run (handle p) s = .ok (false,t)) ∨
    (dirlink d n i).run (handle p) s = .error (.panic .igetFull) := by
  have hwp : (dirlink d n i).wp (.alone (handle p) (fun e => e = .panic .igetFull)) (fun b _ => b = false) s := by
    refine alone_ok (if_pos hd) ?_
    rw [hl]
    refine alone_call (fun e he => ?_) (fun _ t ht => ?_)
    · simp only [handle,State.iget] at he
      split_ifs at he <;> cases he
      rfl
    · obtain ⟨u,hu,he⟩ := map_ok ht
      cases he
      change (iput j >>= fun _ => pure false : Code Bool).wp _ _ _
      refine wp_bind (alone_iput ?_ (fun _ => alone_ret rfl))
      rw [(iget_same hu).lock]
      exact hj
  rcases run_of_wp hwp with ⟨b,t,hr,rfl⟩ | ⟨e,hr,rfl⟩
  · exact .inl ⟨t,hr⟩
  · exact .inr hr

lemma run_dirlink_none (hd : (s.ino d).type = .dir) (hl : lookup n (s.ino d).ents 0 = none) :
    (dirlink d n i).run (handle p) s = .ok (true,enter s d n i) ∨
    (dirlink d n i).run (handle p) s = .error (.panic .writeDirent) ∨
    (dirlink d n i).run (handle p) s = .error (.panic .noBlocks) := by
  have hwp : (dirlink d n i).wp (.alone (handle p) (fun e => e = .panic .writeDirent ∨ e = .panic .noBlocks))
      (fun b t => b = true ∧ t = enter s d n i) s := by
    refine alone_ok (if_pos hd) ?_
    rw [hl]
    refine alone_ok rfl (alone_call (fun e he => ?_) (fun _ u hu => alone_ret ?_))
    · simp only [handle,writeDirent] at he
      split_ifs at he <;> cases he
      · exact .inl rfl
      · exact .inr rfl
    · obtain ⟨v,hv,he⟩ := map_ok hu
      cases he
      unfold writeDirent at hv
      split_ifs at hv
      cases hv
      exact ⟨rfl,rfl⟩
  rcases run_of_wp hwp with ⟨b,t,hr,rfl,rfl⟩ | ⟨e,hr,rfl | rfl⟩
  · exact .inl hr
  · exact .inr (.inl hr)
  · exact .inr (.inr hr)

end

open scoped FixedRuns

/-- Two processes call `open("x", O_CREATE)`; the second starts while the first has the directory locked. -/
def twoCreates : List (SysLabel (Fin 2)) :=
  System.schedule
    [(.fork 0 1,1),(.start 0 (.create [120]),1),(.start 1 (.create [120]),1),(.next 0,12),(.next 1,3),(.next 0,19),
      (.next 1,24)]

end Xv6Threads.Fs
