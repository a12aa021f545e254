import Xv6Threads.Disk.Read
import Xv6Threads.Mkfs.Consistent

/-! The kernel on the image that `mkfs` writes: it finds every file in the root directory and reads back
its bytes. -/
namespace Xv6Threads.Mkfs
open List Option Disk
open Fs (text dirSiz)

/-- The entries of the files, one by one. -/
def entryList : ℕ → List Input → List (List UInt8)
  | _,[] => []
  | k,f :: fs => dirent k f.target :: entryList (k+1) fs

lemma flatten_entryList (k : ℕ) (files : List Input) : (entryList k files).flatten = entries k files := by
  induction files generalizing k with
  | nil => rfl
  | cons f fs ih =>
    unfold entryList entries
    rw [flatten_cons,ih]

lemma getElem?_entryList (k i : ℕ) (files : List Input) :
    (entryList k files)[i]? = files[i]?.map (fun f => dirent (k+i) f.target) := by
  induction files generalizing k i with
  | nil => rfl
  | cons f fs ih =>
    cases i with
    | zero => rfl
    | succ i =>
      unfold entryList
      rw [getElem?_cons_succ,getElem?_cons_succ,ih,show k+1+i = k+(i+1) by omega]

/-- The root directory, entry by entry. -/
def rootEntries (files : List Input) : List (List UInt8) :=
  dirent 1 Fs.dot :: dirent 1 Fs.dotdot :: entryList 2 files

lemma flatten_rootEntries (files : List Input) : (rootEntries files).flatten = rootBytes files := by
  unfold rootEntries rootBytes
  rw [flatten_cons,flatten_cons,flatten_entryList,append_assoc]

/-- What of the names in the root directory counts. -/
def names (files : List Input) : List (List UInt8) :=
  (Fs.dot :: Fs.dotdot :: files.map Input.target).map (Fs.text Fs.dirSiz)

lemma rootEntries_name {files : List Input} {i : ℕ} {e : List UInt8} (h : (rootEntries files)[i]? = some e) :
    e.length = 16 ∧ (names files)[i]? = some (text dirSiz (e.drop 2)) := by
  have hdirent : ∀ k name, (dirent k name).length = 16 ∧
      some (text dirSiz name) = some (text dirSiz ((dirent k name).drop 2)) :=
    fun k name => ⟨length_dirent k name,by rw [← Fs.text_strncpy]; rfl⟩
  match i with
  | 0 =>
    cases h
    exact hdirent 1 Fs.dot
  | 1 =>
    cases h
    exact hdirent 1 Fs.dotdot
  | i+2 =>
    have h' : (entryList 2 files)[i]? = some e := h
    rw [getElem?_entryList,map_eq_some_iff] at h'
    obtain ⟨f,hf,rfl⟩ := h'
    have hn : (names files)[i+2]? = some (text dirSiz f.target) := by
      unfold names
      rw [map_cons,map_cons,List.getElem?_cons_succ,List.getElem?_cons_succ,List.map_map,List.getElem?_map,hf]
      rfl
    rw [hn]
    exact hdirent _ _

lemma direntInum_dirent {k : ℕ} (hk : k < 2^16) (name : List UInt8) : direntInum (dirent k name) = k := by
  change (byteOf k 0).toNat+256*(byteOf k 1).toNat = k
  rw [toNat_byteOf,toNat_byteOf]
  omega

section
variable {m : Mk} {nodes : List Node} {files : List Input}

section
variable (h : Done m nodes) (hc : nodes.map Node.content = contents files)
include h hc

lemma Done.root_loaded :
    ∃ n, nodes[0]? = some n ∧ n.content = rootBytes files ∧ ilock ⟨m.disk,[]⟩ rootino = some (rinode m.disk 1) ∧
      n.content.length ≤ (rinode m.disk 1).size := by
  have h0 : (nodes.map Node.content)[0]? = some (rootBytes files) := by
    rw [hc]
    rfl
  rw [getElem?_map,map_eq_some_iff] at h0
  obtain ⟨n,hn,hnc⟩ := h0
  have htype : (rinode m.disk 1).type = 1 := h.type 0 n hn
  refine ⟨n,hn,hnc,?_,?_⟩
  · unfold ilock
    exact if_neg (show ¬(rinode m.disk 1).type = 0 by omega)
  · rw [h.root n hn]
    omega

lemma Done.lookup (name : List UInt8) {i : ℕ} {e : List UInt8}
    (hi : (rootEntries files)[i]? = some e) (hinum : direntInum e ≠ 0)
    (hname : (names files)[i]? = some (text dirSiz name))
    (hfirst : ∀ j, j < i → (names files)[j]? ≠ some (text dirSiz name)) :
    dirlookup ⟨m.disk,[]⟩ (rinode m.disk 1) name = some (some (direntInum e,16*i),⟨m.disk,[]⟩,rinode m.disk 1) := by
  obtain ⟨n,hn,hnc,_,hsize⟩ := h.root_loaded hc
  have htype : (rinode m.disk 1).type = 1 := h.type 0 n hn
  have h16 : ∀ x ∈ rootEntries files, x.length = 16 := by
    intro x hx
    obtain ⟨j,hj⟩ := getElem?_of_mem hx
    exact (rootEntries_name hj).1
  have hflat : n.content = (rootEntries files).flatten := by rw [hnc,flatten_rootEntries]
  have hilen := (List.getElem?_eq_some_iff.mp hi).1
  have hlen : n.content.length = 16*(rootEntries files).length := by rw [hflat,length_flatten_of h16]
  unfold dirlookup
  rw [if_neg (fun hne => hne htype)]
  refine lookupLoop_spec (s := ⟨m.disk,[]⟩) (j := 0) (h.rep 0 n hn) hflat h16 hsize hi hinum ?_ (fun j x hx hj hcmp => ?_)
    (by omega) (Nat.zero_le _)
  · rw [Fs.namecmp_eq_zero]
    exact some.inj (hname.symm.trans (rootEntries_name hi).2)
  · rw [Fs.namecmp_eq_zero] at hcmp
    exact hfirst j hj (by rw [(rootEntries_name hx).2,hcmp])

lemma Done.file_read {i : ℕ} {f : Input} (hf : files[i]? = some f) :
    ∃ ip, ilock ⟨m.disk,[]⟩ (i+2) = some ip ∧ ip.size = f.chunks.flatten.length ∧
      readi ⟨m.disk,[]⟩ ip 0 ip.size = some (some f.chunks.flatten,⟨m.disk,[]⟩,ip) := by
  have hi : (nodes.map Node.content)[i+1]? = some f.chunks.flatten := by
    rw [hc]
    unfold contents
    rw [getElem?_cons_succ,getElem?_map,hf]
    rfl
  rw [getElem?_map,map_eq_some_iff] at hi
  obtain ⟨n,hn,hnc⟩ := hi
  have htype : (rinode m.disk (i+2)).type = 2 := h.type (i+1) n hn
  have hsize : (rinode m.disk (i+2)).size = n.content.length := h.file (i+1) n hn (Nat.succ_pos _)
  refine ⟨rinode m.disk (i+2),?_,?_,?_⟩
  · unfold ilock
    exact if_neg (show ¬(rinode m.disk (i+2)).type = 0 by omega)
  · rw [hsize,hnc]
  · have hrep : Rep m.disk m.freeblock (rinode m.disk (i+2)).addrs n := h.rep (i+1) n hn
    rw [readi_spec (s := ⟨m.disk,[]⟩) hrep (by omega) (by omega),hsize,hnc,drop_zero,take_length]

end

end

lemma text_take (k : ℕ) (t : List UInt8) : text k (t.take k) = text k t := by
  induction k generalizing t with
  | zero => rfl
  | succ k ih =>
    cases t with
    | nil => rfl
    | cons x xs =>
      unfold text
      rw [take_succ_cons,headD_cons,headD_cons,tail_cons,tail_cons,ih]

/-- The kernel finds the file `f` under its name and reads its bytes. -/
def ReadBack (m : Mk) (f : Input) : Prop :=
  ∃ dp inum off ip, ilock ⟨m.disk,[]⟩ rootino = some dp ∧
    dirlookup ⟨m.disk,[]⟩ dp (f.target.take Fs.dirSiz) = some (some (inum,off),⟨m.disk,[]⟩,dp) ∧
    ilock ⟨m.disk,[]⟩ inum = some ip ∧ ip.size = f.chunks.flatten.length ∧
    readi ⟨m.disk,[]⟩ ip 0 ip.size = some (some f.chunks.flatten,⟨m.disk,[]⟩,ip)

/-- Files that fit and whose names on the image are distinct are read back. -/
theorem mkfs_read_back {files : List Input} (hfew : files.length+1 < ninodes) (hfit : Fits (contents files))
    (hslash : ∀ f ∈ files, Fs.slash ∉ f.name) (hnames : (names files).Nodup) :
    ∃ m, mkfs files = some m ∧ ∀ f ∈ files, ReadBack m f := by
  obtain ⟨m,nodes,hm,hD,hc⟩ := mkfs_isSome files hfew hfit hslash
  refine ⟨m,hm,fun f hf => ?_⟩
  obtain ⟨i,hi⟩ := List.getElem?_of_mem hf
  have hlen := (List.getElem?_eq_some_iff.mp hi).1
  have hfew' : files.length+1 < 200 := hfew
  obtain ⟨_,_,_,hroot,_⟩ := hD.root_loaded hc
  obtain ⟨ip,hip,hsize,hread⟩ := hD.file_read hc hi
  have hentry : (rootEntries files)[i+2]? = some (dirent (i+2) f.target) := by
    change (entryList 2 files)[i]? = _
    rw [getElem?_entryList,hi,Nat.add_comm]
    rfl
  have hinum : direntInum (dirent (i+2) f.target) = i+2 := direntInum_dirent (by omega) _
  have hname : (names files)[i+2]? = some (Fs.text Fs.dirSiz (f.target.take Fs.dirSiz)) := by
    rw [(rootEntries_name hentry).2,text_take]
    exact congrArg some (Fs.text_strncpy Fs.dirSiz f.target)
  have hlook := hD.lookup hc _ hentry (by omega) hname fun j hj he => by
    obtain ⟨hjl,hje⟩ := List.getElem?_eq_some_iff.mp he
    obtain ⟨hil,hie⟩ := List.getElem?_eq_some_iff.mp hname
    have := hnames.getElem_inj_iff.mp (hje.trans hie.symm)
    omega
  rw [hinum] at hlook
  exact ⟨_,i+2,16*(i+2),ip,hroot,hlook,hip,hsize,hread⟩

/-- Two files, one of them in two pieces. -/
theorem mkfs_read_back_two_files : ∃ m, mkfs [⟨[95,97],[[1,2],[3]]⟩,⟨[98],[[4]]⟩] = some m ∧
    ∀ f ∈ [(⟨[95,97],[[1,2],[3]]⟩ : Input),⟨[98],[[4]]⟩], ReadBack m f :=
  mkfs_read_back (by decide) ⟨by decide,by decide⟩ (by decide) (by decide)

/-- `_a` and `a` have the same name on the image: only the first of them is found. -/
theorem same_target_hides_file : ∃ m, mkfs [⟨[95,97],[[1]]⟩,⟨[97],[[2]]⟩] = some m ∧ ¬ReadBack m ⟨[97],[[2]]⟩ := by
  obtain ⟨m,nodes,hm,hD,hc⟩ := mkfs_isSome [⟨[95,97],[[1]]⟩,⟨[97],[[2]]⟩] (by decide) ⟨by decide,by decide⟩ (by decide)
  refine ⟨m,hm,?_⟩
  rintro ⟨dp,inum,off,ip,hdp,hlook,hip,_,hread⟩
  obtain ⟨_,_,_,hroot,_⟩ := hD.root_loaded hc
  obtain ⟨ip₁,hip₁,_,hread₁⟩ := hD.file_read hc (i := 0) rfl
  have hlook₁ := hD.lookup hc [97] (i := 2) rfl (by decide) (by decide) (by decide)
  rw [hroot] at hdp
  cases hdp
  have hboth := hlook₁.symm.trans hlook
  have hinum : inum = 2 := by
    cases hboth
    decide
  subst hinum
  rw [hip₁] at hip
  cases hip
  rw [hread₁] at hread
  cases hread

end Xv6Threads.Mkfs
