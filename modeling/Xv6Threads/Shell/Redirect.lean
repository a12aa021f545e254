import Xv6Threads.Shell.Correct

/-! The redirections of a command when `runcmd` performs them. `parseredirs` puts each redirection around what it has,
so the last one in the text is the outermost node and `runcmd` opens its file first: a redirection of the same
descriptor further left replaces it. -/
namespace Xv6Threads.Shell
open List

/-- A descriptor table: `ofile`. -/
abbrev Ofile (F : Type) := List (Option F)

section
variable {F : Type}

/-- `fdalloc`: the lowest free descriptor. -/
def fdalloc (f : F) : Ofile F → Option (Ofile F)
  | [] => none
  | none :: t => some (some f :: t)
  | some g :: t => (fdalloc f t).map (some g :: ·)

/-- The `REDIR` case of `runcmd` up to its call of `runcmd`: `close(rcmd->fd)` and `open(rcmd->file, rcmd->mode)`, which
finds the file and takes a descriptor. -/
def redirect (file : Redircmd → F) (r : Redircmd) (t : Ofile F) : Option (Ofile F) := fdalloc (file r) (t.set r.fd none)

/-- `runcmd(c)` with descriptors `t` comes, through `REDIR` nodes, to `runcmd(c')` with descriptors `t'`. -/
inductive Runs (file : Redircmd → F) : Cmd → Ofile F → Cmd → Ofile F → Prop
  | start (c : Cmd) (t : Ofile F) : Runs file c t c t
  | redir {c c' : Cmd} {r : Redircmd} {t u t' : Ofile F} (h : redirect file r t = some u) (hr : Runs file c u c' t') :
    Runs file (.redir c r) t c' t'

/-- The redirections of a simple command or of a block, in the order of the text. -/
def Deriv.redirs : Deriv .exec → List Redircmd
  | .block _ rs => rs.map Redir.cmd
  | .simple items => items.filterMap Item.redircmd

/-- The command proper. -/
def Deriv.proper : Deriv .exec → Cmd
  | .block l _ => l.tree
  | .simple items => .exec (argv items)

lemma Deriv.tree_eq (x : Deriv .exec) : x.tree = wrap x.proper x.redirs := by cases x <;> rfl

lemma Redir.fd_le (r : Redir) : r.cmd.fd ≤ 1 := by
  rcases r with ⟨_ | _ | _,q,eq⟩
  · exact Nat.zero_le 1
  · exact le_refl 1
  · exact le_refl 1

lemma Deriv.redirs_fd_le (x : Deriv .exec) : ∀ r ∈ x.redirs, r.fd ≤ 1 := by
  intro r hr
  cases x with
  | block l rs =>
    obtain ⟨a,-,rfl⟩ := mem_map.mp hr
    exact a.fd_le
  | simple items =>
    obtain ⟨i,-,hi⟩ := mem_filterMap.mp hr
    cases i with
    | word q eq => cases hi
    | redir a =>
      cases hi
      exact a.fd_le

/-- Descriptors 0 and 1 are open. -/
def Opened (t : Ofile F) : Prop := ∃ f g u, t = some f :: some g :: u

variable {t : Ofile F}

lemma redirect_eq (file : Redircmd → F) {r : Redircmd} (hr : r.fd ≤ 1) (ht : Opened t) :
    redirect file r t = some (t.set r.fd (some (file r))) := by
  obtain ⟨f,g,u,rfl⟩ := ht
  rcases Nat.le_one_iff_eq_zero_or_eq_one.mp hr with h | h
  · rw [redirect,h]
    rfl
  · rw [redirect,h]
    rfl

lemma Opened.set (ht : Opened t) {i : ℕ} (hi : i ≤ 1) (f : F) : Opened (t.set i (some f)) := by
  obtain ⟨g,h,u,rfl⟩ := ht
  rcases Nat.le_one_iff_eq_zero_or_eq_one.mp hi with rfl | rfl
  · exact ⟨f,h,u,rfl⟩
  · exact ⟨g,f,u,rfl⟩

/-- The descriptors after some redirections, performed from right to left. -/
def performed (file : Redircmd → F) (rs : List Redircmd) (t : Ofile F) : Ofile F :=
  rs.foldr (fun r t => t.set r.fd (some (file r))) t

lemma runs_wrap (file : Redircmd → F) (c : Cmd) {rs : List Redircmd} (hrs : ∀ r ∈ rs, r.fd ≤ 1)
    (ht : Opened t) : Runs file (wrap c rs) t c (performed file rs t) := by
  -- the last redirection is the outermost node
  induction rs using reverseRecOn generalizing t with
  | nil => exact .start c t
  | append_singleton rs r ih =>
    have hr := hrs r (by simp)
    rw [show wrap c (rs++[r]) = .redir (wrap c rs) r from foldl_concat ..,
      show performed file (rs++[r]) t = performed file rs (t.set r.fd (some (file r))) from foldr_concat ..]
    exact .redir (redirect_eq file hr ht) (ih (fun a ha => hrs a (mem_append_left _ ha)) (ht.set hr _))

lemma performed_getElem? (file : Redircmd → F) (rs : List Redircmd) {i : ℕ} (hi : i < t.length) :
    (performed file rs t)[i]? = ((rs.filter fun r => r.fd = i).head?.map fun r => some (some (file r))).getD t[i]? := by
  have hlen : ∀ rs, (performed file rs t).length = t.length := by
    intro rs
    induction rs with
    | nil => rfl
    | cons r rs ih => exact length_set.trans ih
  induction rs with
  | nil => rfl
  | cons r rs ih =>
    change ((performed file rs t).set r.fd (some (file r)))[i]? = _
    by_cases h : r.fd = i
    · rw [filter_cons_of_pos (by simpa using h),h,getElem?_set_self (by rwa [hlen])]
      rfl
    · rw [filter_cons_of_neg (by simpa using h),getElem?_set_ne h,ih]

lemma Runs.size_le {file : Redircmd → F} {c c' : Cmd} {t t' : Ofile F} (h : Runs file c t c' t') :
    sizeOf c' ≤ sizeOf c := by
  induction h with
  | start => exact le_rfl
  | redir _ _ ih => exact ih.trans (by simp only [Cmd.redir.sizeOf_spec]; omega)

lemma Runs.self {file : Redircmd → F} {c : Cmd} {o : Ofile F} (h : Runs file c t c o) : o = t := by
  cases h with
  | start => rfl
  | redir _ hr =>
    have := hr.size_le
    simp only [Cmd.redir.sizeOf_spec] at this
    omega

lemma Runs.inner {file : Redircmd → F} {c d : Cmd} {r : Redircmd} {o : Ofile F} (h : Runs file (.redir d r) t c o)
    (hc : sizeOf c ≤ sizeOf d) : ∃ u, redirect file r t = some u ∧ Runs file d u c o := by
  cases h with
  | start =>
    simp only [Cmd.redir.sizeOf_spec] at hc
    omega
  | redir h1 h2 => exact ⟨_,h1,h2⟩

lemma size_le_wrap (c : Cmd) (rs : List Redircmd) : sizeOf c ≤ sizeOf (wrap c rs) := by
  induction rs generalizing c with
  | nil => exact le_rfl
  | cons r rs ih => exact le_trans (by simp only [Cmd.redir.sizeOf_spec]; omega) (ih (.redir c r))

/-- The redirections around a command can be performed in one way only. -/
lemma runs_unique {file : Redircmd → F} {c : Cmd} {rs : List Redircmd} (hrs : ∀ r ∈ rs, r.fd ≤ 1) (ht : Opened t)
    {o : Ofile F} (h : Runs file (wrap c rs) t c o) : o = performed file rs t := by
  induction rs using reverseRecOn generalizing t with
  | nil => exact h.self
  | append_singleton rs r ih =>
    have hr := hrs r (by simp)
    rw [show wrap c (rs++[r]) = .redir (wrap c rs) r from foldl_concat ..] at h
    rw [show performed file (rs++[r]) t = performed file rs (t.set r.fd (some (file r))) from foldr_concat ..]
    obtain ⟨u,h1,h2⟩ := h.inner (size_le_wrap c rs)
    cases (redirect_eq file hr ht).symm.trans h1
    exact ih (fun a ha => hrs a (mem_append_left _ ha)) (ht.set hr _) h2

/-- A command starts with the files of the last redirections in the text, as if they were performed from left to right,
just if for every descriptor the first and the last redirection name the same file. -/
theorem last_redirection_wins (file : Redircmd → F) (es n : ℕ) (s t : Ptr) (c : Cmd) (h : parseexec es n s = .ok (c,t)) :
    ∃ x : Deriv .exec, toks es s = x.yield++toks es t ∧ c = x.tree ∧ ∀ f₀ f₁ f₂ : F, ∀ u : Ofile F,
      let o := some f₀ :: some f₁ :: some f₂ :: u
      (∃ o', Runs file c o x.proper o' ∧ ∀ i < o.length,
        o'[i]? = ((x.redirs.filter fun r => r.fd = i).getLast?.map fun r => some (some (file r))).getD o[i]?) ↔
      ∀ i, (x.redirs.filter fun r => r.fd = i).head?.map file = (x.redirs.filter fun r => r.fd = i).getLast?.map file := by
  obtain ⟨x,-,rfl,hs⟩ := parseOf_sound n .exec s c t h
  refine ⟨x,hs,rfl,fun f₀ f₁ f₂ u => ?_⟩
  have hopen : Opened (some f₀ :: some f₁ :: some f₂ :: u) := ⟨f₀,f₁,_,rfl⟩
  rw [x.tree_eq]
  constructor
  · rintro ⟨o',hr,ho⟩ i
    rw [runs_unique x.redirs_fd_le hopen hr] at ho
    by_cases hi : i ≤ 1
    · have h1 := ho i (by simp only [length_cons]; omega)
      rw [performed_getElem? file _ (by simp only [length_cons]; omega)] at h1
      cases hl : x.redirs.filter fun r => r.fd = i with
      | nil => rfl
      | cons a l =>
        rw [hl,getLast?_cons] at h1
        rw [getLast?_cons]
        exact congrArg some (Option.some.inj (Option.some.inj h1))
    · have hnil : (x.redirs.filter fun r => r.fd = i) = [] := filter_eq_nil_iff.mpr fun r hr => by
        have := x.redirs_fd_le r hr
        simp only [decide_eq_true_eq]
        omega
      rw [hnil]
      rfl
  · intro hsame
    refine ⟨_,runs_wrap file x.proper x.redirs_fd_le hopen,fun i hi => ?_⟩
    have hmap : ∀ y : Option Redircmd,
        y.map (fun r => some (some (file r))) = (y.map file).map fun f => some (some f) := fun y => by
      rw [Option.map_map]
      rfl
    rw [performed_getElem? file _ hi,hmap,hsame i,hmap]

lemma wrap_exec_inj {a b : List (ℕ × ℕ)} {rs rs' : List Redircmd} (h : wrap (.exec a) rs = wrap (.exec b) rs') : rs = rs' := by
  induction rs using reverseRecOn generalizing rs' with
  | nil =>
    rcases eq_nil_or_concat rs' with rfl | ⟨rs',r,rfl⟩
    · rfl
    · rw [concat_eq_append,show wrap (.exec b) (rs'++[r]) = .redir _ r from foldl_concat ..] at h
      cases h
  | append_singleton rs r ih =>
    rw [show wrap (.exec a) (rs++[r]) = .redir (wrap (.exec a) rs) r from foldl_concat ..] at h
    rcases eq_nil_or_concat rs' with rfl | ⟨rs',r',rfl⟩
    · cases h
    · rw [concat_eq_append,show wrap (.exec b) (rs'++[r']) = .redir (wrap (.exec b) rs') r' from foldl_concat ..] at h
      obtain ⟨h1,rfl⟩ := Cmd.redir.inj h
      rw [ih h1,concat_eq_append]

end

/-- The string up to its first NUL. -/
def cstr : List UInt8 → Ptr
  | [] => []
  | c :: s => if h : c ≠ 0 then ⟨c,h⟩ :: cstr s else []

/-- The command `e>a<b`. -/
def once : Ptr := cstr [101,62,97,60,98]

/-- `e>a<b` starts with descriptor 0 referring to `b` and descriptor 1 to `a`, by the places of their names. -/
theorem last_redirection_wins_two_files : ∃ c x, parseexec 5 20 once = .ok (c,[]) ∧ Deriv.proper x = .exec [(0,1)] ∧
    ∃ o', Runs Redircmd.q c [some 100,some 101,some 102] x.proper o' ∧ o'[0]? = some (some 4) ∧ o'[1]? = some (some 2) := by
  have h : parseexec 5 20 once =
      .ok (wrap (.exec [(0,1)]) [⟨2,3,wronlyCreate,1⟩,⟨4,5,rdonly,0⟩],[]) := by decide +kernel
  obtain ⟨x,hs,hc,hiff⟩ := last_redirection_wins Redircmd.q 5 20 once [] _ h
  have hs : [.word 0 1,.gt,.word 2 3,.lt,.word 4 5] = x.yield++[] := (by decide +kernel : _ = toks 5 once).trans hs
  cases x with
  | block l rs => cases hs
  | simple items =>
    have hred : (Deriv.simple items).redirs = [⟨2,3,wronlyCreate,1⟩,⟨4,5,rdonly,0⟩] := (wrap_exec_inj hc).symm
    rw [hred] at hiff
    obtain ⟨o',hr,ho⟩ := (hiff 100 101 102 []).mpr fun i => by
      rcases i with _ | _ | i <;> rfl
    have hproper : Deriv.proper (.simple items) = .exec [(0,1)] := by
      rw [Deriv.tree_eq,hred] at hc
      exact (Cmd.redir.inj (Cmd.redir.inj hc).1).1.symm
    exact ⟨_,.simple items,h,hproper,o',hr,ho 0 (by decide),ho 1 (by decide)⟩

/-- The command `e>a>b`. -/
def twice : Ptr := cstr [101,62,97,62,98]

/-- `e>a>b` starts with descriptor 1 referring to `a`, whose name is at 2, and not to `b`, whose name is at 4. -/
theorem first_redirection_wins :
    ∃ c, parsecmd twice = .ok c ∧ tokens twice = [.word 0 1,.gt,.word 2 3,.gt,.word 4 5] ∧
      Runs Redircmd.q c [some 100,some 101,some 102] (.exec [(0,1)]) [some 100,some 2,some 102] ∧
      ∀ o, Runs Redircmd.q c [some 100,some 101,some 102] (.exec [(0,1)]) o → o[1]? = some (some 2) := by
  refine ⟨.redir (.redir (.exec [(0,1)]) ⟨2,3,wronlyCreate,1⟩) ⟨4,5,wronlyCreate,1⟩,by decide +kernel,
    by decide +kernel,.redir rfl (.redir rfl (.start _ _)),?_⟩
  intro o h
  cases h with
  | redir h1 h =>
    cases h1
    cases h with
    | redir h2 h =>
      cases h2
      cases h
      rfl

end Xv6Threads.Shell
