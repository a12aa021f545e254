import Mathlib

/-! The strings of `string.c` and `fs.c`: names of at most `DIRSIZ` bytes and the elements of a
path. A list of bytes stands for the bytes in memory; behind its end there is a NUL. -/
namespace Xv6Threads.Fs
open List Int

def dirSiz : ℕ := 14

def slash : UInt8 := 47

/-- `"."` -/
def dot : List UInt8 := [46]

/-- `".."` -/
def dotdot : List UInt8 := [46,46]

def strncmp : ℕ → List UInt8 → List UInt8 → ℤ
  | 0,_,_ => 0
  | n+1,p,q =>
    if p.headD 0 ≠ 0 ∧ p.headD 0 = q.headD 0 then strncmp n p.tail q.tail
    else (p.headD 0).toNat-(q.headD 0).toNat

/-- The bytes that `strncpy(s, t, n)` stores. -/
def strncpy : ℕ → List UInt8 → List UInt8
  | 0,_ => []
  | n+1,t => t.headD 0 :: if t.headD 0 = 0 then List.replicate n 0 else strncpy n t.tail

def namecmp (s t : List UInt8) : ℤ := strncmp dirSiz s t

/-- The first element of a path and what follows it. -/
def skipelem (path : List UInt8) : Option (List UInt8 × List UInt8) :=
  match path.dropWhile (· = slash) with
  | [] => none
  | c :: s =>
    some (((c :: s).takeWhile (· ≠ slash)).take dirSiz,((c :: s).dropWhile (· ≠ slash)).dropWhile (· = slash))

/-- The elements of a path, at most `k` of them. -/
def elems : ℕ → List UInt8 → List (List UInt8)
  | 0,_ => []
  | k+1,path =>
    match skipelem path with
    | none => []
    | some (n,rest) => n :: elems k rest

def lastElem (path : List UInt8) : Option (List UInt8) := (elems (path.length+1) path).getLast?

/-- The string that a system call gets from `argstr`. -/
def cstring (s : List UInt8) : List UInt8 := s.takeWhile (· ≠ 0)

/-- What of a name counts: its bytes before the NUL, at most `n`. -/
def text : ℕ → List UInt8 → List UInt8
  | 0,_ => []
  | n+1,s => if s.headD 0 = 0 then [] else s.headD 0 :: text n s.tail

lemma elems_nil (k : ℕ) : elems k [] = [] := by cases k <;> rfl

lemma skipelem_length {path n rest : List UInt8} (h : skipelem path = some (n,rest)) : rest.length < path.length := by
  unfold skipelem at h
  have hskip := length_dropWhile_le (fun c => decide (c = slash)) path
  have hhead := head?_dropWhile_not (fun c => decide (c = slash)) path
  split at h
  · cases h
  · next c s hp =>
    cases h
    rw [hp] at hskip hhead
    rw [dropWhile_cons_of_pos (by simpa using hhead)]
    calc _ ≤ (s.dropWhile (fun c => decide (c ≠ slash))).length := length_dropWhile_le _ _
      _ ≤ s.length := length_dropWhile_le _ _
      _ < path.length := hskip

lemma strncmp_eq_zero {n : ℕ} {p q : List UInt8} : strncmp n p q = 0 ↔ text n p = text n q := by
  induction n generalizing p q with
  | zero => exact ⟨fun _ => rfl,fun _ => rfl⟩
  | succ n ih =>
    unfold strncmp text
    by_cases hp : p.headD 0 = 0
    · rw [if_neg (fun h => h.1 hp),if_pos hp,hp]
      by_cases hq : q.headD 0 = 0
      · rw [if_pos hq,hq]
        exact ⟨fun _ => rfl,fun _ => sub_self _⟩
      · rw [if_neg hq]
        refine ⟨fun h => (hq ?_).elim,nofun⟩
        exact UInt8.toNat_inj.mp (ofNat_inj.mp (sub_eq_zero.mp h)).symm
    · rw [if_neg hp]
      by_cases he : p.headD 0 = q.headD 0
      · rw [if_pos ⟨hp,he⟩,if_neg (he ▸ hp),ih,he]
        exact ⟨fun h => by rw [h],fun h => (cons.inj h).2⟩
      · rw [if_neg (fun h => he h.2)]
        refine ⟨fun h => (he ?_).elim,fun h => ?_⟩
        · exact UInt8.toNat_inj.mp (ofNat_inj.mp (sub_eq_zero.mp h))
        · split_ifs at h with hq
          exact (he (cons.inj h).1).elim

lemma text_strncpy (n : ℕ) (t : List UInt8) : text n (strncpy n t) = text n t := by
  induction n generalizing t with
  | zero => rfl
  | succ n ih =>
    unfold text strncpy
    by_cases ht : t.headD 0 = 0
    · rw [if_pos ht,if_pos ht,headD_cons,if_pos ht]
    · rw [if_neg ht,if_neg ht,headD_cons,if_neg ht,tail_cons,ih]

lemma length_strncpy (n : ℕ) (t : List UInt8) : (strncpy n t).length = n := by
  induction n generalizing t with
  | zero => rfl
  | succ n ih =>
    unfold strncpy
    split_ifs <;> simp [ih]

lemma namecmp_eq_zero {s t : List UInt8} : namecmp s t = 0 ↔ text dirSiz s = text dirSiz t := strncmp_eq_zero

end Xv6Threads.Fs
