import Xv6Threads.Mkfs.Image

/-! What `mkfs` puts on the image: the root directory and the files, as lists of bytes. It succeeds if
and only if they fit. -/
namespace Xv6Threads.Mkfs
open List Option Or Disk

/-- The blocks that a file of these bytes takes. -/
def weight (d : List UInt8) : ℕ := cost ((d.length+511)/512)

/-- No file is too long, and the blocks suffice for all of them. -/
structure Fits (cs : List (List UInt8)) : Prop where
  each : ∀ d ∈ cs, d.length ≤ maxfile*bsize
  total : nmeta+(cs.map weight).sum ≤ fssize

/-- The files on the image. -/
def Holding (m : Mk) (cs : List (List UInt8)) : Prop := ∃ nodes, Built m nodes ∧ nodes.map Node.content = cs

section
variable {cs : List (List UInt8)} {d d' : List UInt8} {i : ℕ}

lemma weight_mono (h : d.length ≤ d'.length) : weight d ≤ weight d' := cost_mono (by omega)

lemma sum_weight_set (hi : cs[i]? = some d) (d' : List UInt8) :
    ((cs.set i d').map weight).sum+weight d = (cs.map weight).sum+weight d' := by
  induction cs generalizing i with
  | nil => cases hi
  | cons x xs ih =>
    cases i with
    | zero =>
      cases hi
      rw [set_cons_zero,map_cons,map_cons,sum_cons,sum_cons]
      omega
    | succ i =>
      have := ih hi
      rw [set_cons_succ,map_cons,map_cons,sum_cons,sum_cons]
      omega

lemma Fits.of_set (h : Fits (cs.set i d')) (hi : cs[i]? = some d) (hd : d.length ≤ d'.length) : Fits cs := by
  have hlen := (List.getElem?_eq_some_iff.mp hi).1
  have hsum := sum_weight_set hi d'
  have hmono := weight_mono hd
  have htotal := h.total
  refine ⟨fun x hx => ?_,by omega⟩
  obtain ⟨j,hj⟩ := getElem?_of_mem hx
  by_cases hij : i = j
  · subst hij
    rw [hi] at hj
    cases hj
    exact hd.trans (h.each d' (mem_of_getElem? (getElem?_set_self hlen)))
  · exact h.each x (mem_of_getElem? ((getElem?_set_ne hij).trans hj))

lemma length_le_append (d p : List UInt8) : d.length ≤ (d++p).length := by
  rw [length_append]
  exact Nat.le_add_right _ _

lemma Fits.of_append {l : List (List UInt8)} (h : Fits (cs++l)) : Fits cs := by
  have htotal := h.total
  rw [map_append,sum_append] at htotal
  exact ⟨fun x hx => h.each x (mem_append_left _ hx),by omega⟩

end

section
variable {m : Mk} {nodes : List Node} {cs : List (List UInt8)} {d : List UInt8} {i : ℕ}

lemma Built.count (h : Built m nodes) : m.freeblock = 59+((nodes.map Node.content).map weight).sum := by
  have hlen := h.owned.length_eq
  have hlow := h.low
  have hnode : nodes.map (fun n => n.owned.length) = (nodes.map Node.content).map weight := by
    rw [List.map_map]
    refine map_congr_left fun n hn => ?_
    obtain ⟨i,hi⟩ := getElem?_of_mem hn
    have hH := h.node i n hi
    rw [hH.rep.length_owned hH.snug.thrifty,hH.snug.length]
    rfl
  rw [length_range',length_flatMap,hnode] at hlen
  omega

lemma iappend_holding (h : Holding m cs) (hi : cs[i]? = some d) (p : List UInt8) :
    (iappend m (i+1) p = none ∧ ¬Fits (cs.set i (d++p))) ∨
      ∃ m', iappend m (i+1) p = some m' ∧ Holding m' (cs.set i (d++p)) := by
  obtain ⟨nodes,hB,rfl⟩ := h
  rw [getElem?_map,map_eq_some_iff] at hi
  obtain ⟨n,hn,rfl⟩ := hi
  rcases iappend_spec hB hn p with ⟨hnone,hfull⟩ | ⟨m',n',hsome,hB',hc⟩
  · refine inl ⟨hnone,fun hfit => hfull ⟨?_,?_⟩⟩
    · have hlen := (List.getElem?_eq_some_iff.mp hn).1
      have hmem : n.content++p ∈ (nodes.map Node.content).set i (n.content++p) :=
        mem_of_getElem? (getElem?_set_self (by rw [length_map]; exact hlen))
      have : (n.content++p).length ≤ 140*512 := hfit.each _ hmem
      rw [length_append] at this
      exact this
    · have hi' : (nodes.map Node.content)[i]? = some n.content := by rw [getElem?_map,hn]; rfl
      have hsum := sum_weight_set hi' (n.content++p)
      have hafter : n.after p.length = weight (n.content++p) := by
        unfold Node.after weight
        rw [length_append]
      have hcost : cost n.blocks.length = weight n.content := by
        rw [(hB.node i n hn).snug.length]
        rfl
      have hcount := hB.count
      have htotal : 59+_ ≤ 1000 := hfit.total
      rw [hafter,hcost]
      omega
  · refine inr ⟨m',hsome,_,hB',?_⟩
    rw [map_set,hc]

lemma appendAll_holding (ps : List (List UInt8)) (h : Holding m cs) (hi : cs[i]? = some d) :
    (appendAll (i+1) m ps = none ∧ ¬Fits (cs.set i (d++ps.flatten))) ∨
      ∃ m', appendAll (i+1) m ps = some m' ∧ Holding m' (cs.set i (d++ps.flatten)) := by
  have hlen := (List.getElem?_eq_some_iff.mp hi).1
  induction ps generalizing m cs d with
  | nil =>
    refine inr ⟨m,rfl,?_⟩
    rw [flatten_nil,append_nil,← (List.getElem?_eq_some_iff.mp hi).2,set_getElem_self]
    exact h
  | cons p ps ih =>
    have hset : (cs.set i (d++p)).set i (d++p++ps.flatten) = cs.set i (d++(p :: ps).flatten) := by
      rw [set_set,append_assoc,flatten_cons]
    unfold appendAll
    rcases iappend_holding h hi p with ⟨hnone,hfull⟩ | ⟨m',hsome,h'⟩
    · refine inl ⟨by rw [hnone]; rfl,fun hfit => hfull ?_⟩
      rw [← hset] at hfit
      exact hfit.of_set (getElem?_set_self hlen) (length_le_append _ _)
    · rw [hsome,bind_some,← hset]
      exact ih h' (getElem?_set_self hlen) (by rw [length_set]; exact hlen)

lemma ialloc_holding (h : Holding m cs) (hfew : cs.length+1 < 200) :
    ∃ m', ialloc m (typeOf cs.length) = some (cs.length+1,m') ∧ Holding m' (cs++[[]]) := by
  obtain ⟨nodes,hB,rfl⟩ := h
  rw [length_map] at hfew ⊢
  obtain ⟨m',hm',hB'⟩ := ialloc_spec hB hfew
  exact ⟨m',hm',_,hB',by rw [map_append]; rfl⟩

end

section
variable {m : Mk} {root : List UInt8} {fs : List (List UInt8)}

lemma addFile_holding (f : Input) (h : Holding m (root :: fs)) (hfew : fs.length+2 < 200) : (addFile m f = none ∧
      ¬(Fits ((root++dirent (fs.length+2) f.target) :: (fs++[f.chunks.flatten])) ∧ Fs.slash ∉ f.name)) ∨
      ∃ m', addFile m f = some m' ∧ Holding m' ((root++dirent (fs.length+2) f.target) :: (fs++[f.chunks.flatten])) := by
  unfold addFile
  by_cases hslash : Fs.slash ∈ f.name
  · rw [if_pos hslash]
    exact inl ⟨rfl,fun h => h.2 hslash⟩
  rw [if_neg hslash]
  obtain ⟨m₁,hm₁,h₁⟩ := ialloc_holding h (show (root :: fs).length+1 < 200 from hfew)
  have hm₁' : ialloc m tFile = some (fs.length+2,m₁) := hm₁
  rw [hm₁',bind_some]
  have hset : ∀ q : List UInt8, ((root++dirent (fs.length+2) f.target) :: (fs++[[]])).set (fs.length+1) q =
      (root++dirent (fs.length+2) f.target) :: (fs++[q]) := by
    intro q
    rw [set_cons_succ,set_append_right _ _ le_rfl,Nat.sub_self]
    rfl
  have hlast : ((root++dirent (fs.length+2) f.target) :: (fs++[[]]))[fs.length+1]? = some [] := by
    rw [getElem?_cons_succ,getElem?_append_right le_rfl,Nat.sub_self]
    rfl
  rcases iappend_holding h₁ (i := 0) rfl (dirent (fs.length+2) f.target) with ⟨hnone,hfull⟩ | ⟨m₂,hm₂,h₂⟩
  · refine inl ⟨?_,fun hfit => hfull ?_⟩
    · change (iappend m₁ 1 _).bind _ = none
      rw [hnone]
      rfl
    · have := hfit.1
      rw [← hset] at this
      exact this.of_set hlast (Nat.zero_le _)
  · have hbind : (iappend m₁ rootino (dirent (fs.length+2) f.target)).bind (fun m => appendAll (fs.length+2) m f.chunks) =
        appendAll (fs.length+1+1) m₂ f.chunks := by
      rw [show iappend m₁ rootino (dirent (fs.length+2) f.target) = some m₂ from hm₂]
      rfl
    dsimp only
    rw [hbind]
    have h₂' : Holding m₂ ((root++dirent (fs.length+2) f.target) :: (fs++[[]])) := h₂
    rcases appendAll_holding f.chunks h₂' hlast with ⟨hnone,hfull⟩ | ⟨m₃,hm₃,h₃⟩
    · rw [hset,nil_append] at hfull
      exact inl ⟨hnone,fun hfit => hfull hfit.1⟩
    · rw [hset,nil_append] at h₃
      exact inr ⟨m₃,hm₃,h₃⟩

/-- The entries of the files, the first of which has inode `k`. -/
def entries : ℕ → List Input → List UInt8
  | _,[] => []
  | k,f :: fs => dirent k f.target++entries (k+1) fs

lemma addFiles_holding (files : List Input) (h : Holding m (root :: fs)) (hfew : fs.length+1+files.length < 200) :
    (addFiles m files = none ∧
      ¬(Fits ((root++entries (fs.length+2) files) :: (fs++files.map (fun f => f.chunks.flatten))) ∧
        ∀ f ∈ files, Fs.slash ∉ f.name)) ∨ ∃ m', addFiles m files = some m' ∧
        Holding m' ((root++entries (fs.length+2) files) :: (fs++files.map (fun f => f.chunks.flatten))) := by
  induction files generalizing m root fs with
  | nil =>
    refine inr ⟨m,rfl,?_⟩
    rw [show entries (fs.length+2) [] = [] from rfl,append_nil,map_nil,append_nil]
    exact h
  | cons f files ih =>
    rw [length_cons] at hfew
    have hroot : root++entries (fs.length+2) (f :: files) =
        root++dirent (fs.length+2) f.target++entries (fs.length+1+2) files := by
      rw [append_assoc,show fs.length+1+2 = fs.length+2+1 by omega]
      rfl
    have hfiles : fs++(f :: files).map (fun f => f.chunks.flatten) =
        fs++[f.chunks.flatten]++files.map (fun f => f.chunks.flatten) := by
      rw [map_cons,append_assoc]
      rfl
    rw [hroot,hfiles]
    unfold addFiles
    rcases addFile_holding f h (by omega) with ⟨hnone,hfull⟩ | ⟨m₁,hm₁,h₁⟩
    · refine inl ⟨by rw [hnone]; rfl,fun hfit => hfull ⟨?_,hfit.2 f mem_cons_self⟩⟩
      have hfit' : Fits (((root++dirent (fs.length+2) f.target) :: (fs++[f.chunks.flatten])).set 0
          (root++dirent (fs.length+2) f.target++entries (fs.length+1+2) files)) := Fits.of_append hfit.1
      exact hfit'.of_set rfl (length_le_append _ _)
    · rw [hm₁,bind_some]
      have hlen : (fs++[f.chunks.flatten]).length = fs.length+1 := length_append
      rcases ih h₁ (by omega) with ⟨hnone,hfull⟩ | ⟨m₂,hm₂,h₂⟩
      · rw [hlen] at hfull
        exact inl ⟨hnone,fun hfit => hfull ⟨hfit.1,fun g hg => hfit.2 g (mem_cons_of_mem _ hg)⟩⟩
      · rw [hlen] at h₂
        exact inr ⟨m₂,hm₂,h₂⟩

end

end Xv6Threads.Mkfs
