import Xv6Threads.Fs.Path

/-! The components of a path: the longest pieces without a slash, in order. `skipelem` goes through them, and leaves the
first `DIRSIZ` bytes of each in the buffer of its caller, with a NUL after them only if there is room for it. -/
namespace Xv6Threads.Fs
open List Nat

/-- The components of a path. -/
def components (path : List UInt8) : List (List UInt8) := (path.splitOn slash).filter (· ≠ [])

/-- What `skipelem` keeps of the components. -/
def pathNames (path : List UInt8) : List (List UInt8) := (components path).map (·.take dirSiz)

variable {w : List UInt8}

lemma components_piece (hw : slash ∉ w) (hne : w ≠ []) (rest : List UInt8) :
    components (w++slash :: rest) = w :: components rest := by
  rw [components,splitOn_append_cons_self_of_not_mem hw,filter_cons_of_pos (by simpa using hne)]
  rfl

lemma components_last (hw : slash ∉ w) (hne : w ≠ []) : components w = [w] := by
  rw [components,splitOn_eq_singleton hw,filter_cons_of_pos (by simpa using hne)]
  rfl

lemma components_slash (rest : List UInt8) : components (slash :: rest) = components rest := by
  have hsplit : (slash :: rest).splitOn slash = [] :: rest.splitOn slash :=
    splitOn_append_cons_self_of_not_mem not_mem_nil rest
  rw [components,hsplit,filter_cons_of_neg (by simp)]
  rfl

lemma components_dropWhile (path : List UInt8) : components (path.dropWhile (· = slash)) = components path := by
  induction path with
  | nil => rfl
  | cons c path ih =>
    by_cases hc : c = slash
    · rw [dropWhile_cons_of_pos (by simpa using hc),ih,hc,components_slash]
    · rw [dropWhile_cons_of_neg (by simpa using hc)]

lemma skipelem_components (path : List UInt8) : (skipelem path = none ∧ components path = []) ∨
      ∃ w rest, skipelem path = some (w.take dirSiz,rest) ∧ components path = w :: components rest ∧
        (0 ∉ path → 0 ∉ w ∧ 0 ∉ rest) := by
  rw [← components_dropWhile]
  unfold skipelem
  have hsub : path.dropWhile (· = slash) ⊆ path := (dropWhile_sublist _).subset
  have hhead := List.head?_dropWhile_not (fun c => decide (c = slash)) path
  generalize path.dropWhile (· = slash) = s at *
  cases s with
  | nil => exact .inl ⟨rfl,rfl⟩
  | cons c s =>
    have hc : c ≠ slash := by simpa using hhead
    refine .inr ⟨(c :: s).takeWhile (· ≠ slash),((c :: s).dropWhile (· ≠ slash)).dropWhile (· = slash),rfl,?_,fun h0 => ?_⟩
    · have hw : slash ∉ (c :: s).takeWhile (· ≠ slash) := fun h => by simpa using mem_takeWhile_imp h
      have hne : (c :: s).takeWhile (· ≠ slash) ≠ [] := by simp [hc]
      have hsplit := takeWhile_append_dropWhile (p := fun c => decide (c ≠ slash)) (l := c :: s)
      have hend := List.head?_dropWhile_not (fun c => decide (c ≠ slash)) (c :: s)
      rw [components_dropWhile]
      generalize (c :: s).takeWhile (fun c => decide (c ≠ slash)) = w at *
      generalize (c :: s).dropWhile (fun c => decide (c ≠ slash)) = r at *
      rw [← hsplit]
      cases r with
      | nil =>
        rw [append_nil]
        exact components_last hw hne
      | cons d r =>
        obtain rfl : d = slash := by simpa using hend
        rw [components_piece hw hne,components_slash]
    · have hs : 0 ∉ c :: s := fun h => h0 (hsub h)
      exact ⟨fun h => hs ((takeWhile_sublist _).subset h),
        fun h => hs ((dropWhile_sublist _).subset ((dropWhile_sublist _).subset h))⟩

/-- `skipelem` with the buffer `name` of its caller: the buffer after it, and the rest of the path. -/
def skipelemInto (path name : List UInt8) : Option (List UInt8 × List UInt8) :=
  let path := path.dropWhile (· = slash)
  if path = [] then none
  else
    let s := path
    let path := path.dropWhile (· ≠ slash)
    let len := s.length-path.length
    let name := if dirSiz ≤ len then s.take dirSiz++name.drop dirSiz else s.take len++0 :: name.drop (len+1)
    some (name,path.dropWhile (· = slash))

/-- The names that calls of `skipelem` leave in the buffer, until it returns 0; at most `k` calls. -/
def walkNames : ℕ → List UInt8 → List UInt8 → Option (List (List UInt8))
  | 0,_,_ => none
  | k+1,path,name =>
    match skipelemInto path name with
    | none => some []
    | some (name,path) => (walkNames k path name).map (text dirSiz name :: ·)

lemma text_plain {n : ℕ} (h0 : 0 ∉ w) (hn : w.length ≤ n) (rest : List UInt8) : text n (w++0 :: rest) = w := by
  induction w generalizing n with
  | nil =>
    cases n <;> simp [text]
  | cons c w ih =>
    obtain ⟨n,rfl⟩ : ∃ m, n = m+1 := ⟨n-1,by simp at hn; omega⟩
    rw [mem_cons,not_or] at h0
    rw [cons_append,text,headD_cons,if_neg (Ne.symm h0.1),tail_cons, ih h0.2 (le_of_succ_le_succ hn)]

lemma text_full {n : ℕ} (h0 : 0 ∉ w) (hn : n ≤ w.length) (rest : List UInt8) : text n (w++rest) = w.take n := by
  induction n generalizing w with
  | zero => rfl
  | succ n ih =>
    cases w with
    | nil => exact absurd hn (not_succ_le_zero n)
    | cons c w =>
      rw [mem_cons,not_or] at h0
      rw [cons_append,text,headD_cons,if_neg (Ne.symm h0.1),tail_cons, ih h0.2 (le_of_succ_le_succ hn),take_succ_cons]

lemma skipelemInto_eq {path : List UInt8} (h0 : 0 ∉ path) (name : List UInt8) :
    (skipelem path = none ∧ skipelemInto path name = none) ∨
      ∃ n name' rest, skipelem path = some (n,rest) ∧ skipelemInto path name = some (name',rest) ∧ text dirSiz name' = n := by
  unfold skipelem skipelemInto
  have hs : 0 ∉ path.dropWhile (· = slash) := fun h => h0 ((dropWhile_sublist _).subset h)
  generalize path.dropWhile (· = slash) = s at *
  cases s with
  | nil => exact .inl ⟨rfl,rfl⟩
  | cons c s =>
    refine .inr ⟨_,_,_,rfl,rfl,?_⟩
    have hw : 0 ∉ (c :: s).takeWhile (· ≠ slash) := fun h => hs ((takeWhile_sublist _).subset h)
    have hsplit := takeWhile_append_dropWhile (p := fun c => decide (c ≠ slash)) (l := c :: s)
    generalize (c :: s).takeWhile (fun c => decide (c ≠ slash)) = w at *
    generalize (c :: s).dropWhile (fun c => decide (c ≠ slash)) = r at *
    rw [← hsplit,length_append,Nat.add_sub_cancel]
    split_ifs with hlen
    · rw [take_append_of_le_length hlen,text_full (fun h => hw (mem_of_mem_take h)) (by rw [length_take]; omega),
        take_take,min_self]
    · rw [take_left,text_plain hw (by omega),take_of_length_le (by omega)]

/-- Calls of `skipelem` give the components one after the other, cut off after `DIRSIZ` bytes, and stop. -/
lemma walkNames_eq {k : ℕ} {path : List UInt8} (h0 : 0 ∉ path) (hk : path.length < k) (name : List UInt8) :
    walkNames k path name = some (pathNames path) := by
  induction k generalizing path name with
  | zero => exact absurd hk (not_lt_zero _)
  | succ k ih =>
    rw [walkNames]
    rcases skipelem_components path with ⟨h,hc⟩ | ⟨w,rest,h,hc,hnul⟩ <;>
      rcases skipelemInto_eq h0 name with ⟨h',hi⟩ | ⟨n,name',rest',h',hi,ht⟩ <;> rw [h] at h' <;> cases h'
    · rw [hi,pathNames,hc]
      rfl
    · have hlt := skipelem_length h
      rw [hi]
      simp only [ih (hnul h0).2 (by omega),ht,Option.map_some]
      rw [pathNames,pathNames,hc,map_cons]

end Xv6Threads.Fs
