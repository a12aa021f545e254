import Xv6Threads.Shell.Parser

/-! The grammar of the shell's command lines, as trees of derivations over tokens, and its unambiguity. -/
namespace Xv6Threads.Shell
open List

/-- A token; words have their range in the string. -/
inductive Token
  | pipe | lparen | rparen | semi | amp | lt | gt | gtgt
  | word (q eq : ℕ)
  deriving DecidableEq

inductive Op
  | lt | gt | gtgt
  deriving DecidableEq

def Op.token : Op → Token
  | .lt => .lt
  | .gt => .gt
  | .gtgt => .gtgt

/-- `redir ::= ('<' | '>' | '>>') word` -/
structure Redir where
  op : Op
  q : ℕ
  eq : ℕ
  deriving DecidableEq

/-- What stands in a simple command. -/
inductive Item
  | word (q eq : ℕ)
  | redir (r : Redir)
  deriving DecidableEq

open Item

inductive Sym
  | line | pipe | exec

/-- `line ::= pipe '&'* [';' line]`, `pipe ::= exec ['|' pipe]`,
`exec ::= '(' line ')' redir* | redir* (word redir*)*` -/
inductive Deriv : Sym → Type
  | last (p : Deriv .pipe) (amps : ℕ) : Deriv .line
  | seq (p : Deriv .pipe) (amps : ℕ) (l : Deriv .line) : Deriv .line
  | one (e : Deriv .exec) : Deriv .pipe
  | more (e : Deriv .exec) (p : Deriv .pipe) : Deriv .pipe
  | block (l : Deriv .line) (rs : List Redir) : Deriv .exec
  | simple (items : List Item) : Deriv .exec

def Redir.yield (r : Redir) : List Token := [r.op.token,.word r.q r.eq]

def Item.yield : Item → List Token
  | .word q eq => [.word q eq]
  | .redir r => r.yield

/-- The tokens of a derivation. -/
def Deriv.yield : {k : Sym} → Deriv k → List Token
  | _, .last p n => p.yield++List.replicate n .amp
  | _, .seq p n l => p.yield++List.replicate n .amp++.semi :: l.yield
  | _, .one e => e.yield
  | _, .more e p => e.yield++.pipe :: p.yield
  | _, .block l rs => .lparen :: (l.yield++.rparen :: rs.flatMap Redir.yield)
  | _, .simple items => items.flatMap Item.yield

def Item.arg : Item → Option (ℕ × ℕ)
  | .word q eq => some (q,eq)
  | .redir _ => none

def Redir.cmd (r : Redir) : Redircmd :=
  match r.op with
  | .lt => ⟨r.q,r.eq,rdonly,0⟩
  | .gt | .gtgt => ⟨r.q,r.eq,wronlyCreate,1⟩

def Item.redircmd : Item → Option Redircmd
  | .word _ _ => none
  | .redir r => some r.cmd

def argv (items : List Item) : List (ℕ × ℕ) := items.filterMap Item.arg

/-- At most `MAXARGS-1` words in a simple command. -/
def Deriv.Ok : {k : Sym} → Deriv k → Prop
  | _, .last p _ => p.Ok
  | _, .seq p _ l => p.Ok ∧ l.Ok
  | _, .one e => e.Ok
  | _, .more e p => e.Ok ∧ p.Ok
  | _, .block l _ => l.Ok
  | _, .simple items => (argv items).length ≤ maxargs-1

/-- `n` times in the background -/
def backs : ℕ → Cmd → Cmd
  | 0, c => c
  | n+1, c => backs n (.back c)

/-- The tree of a derivation. -/
def Deriv.tree : {k : Sym} → Deriv k → Cmd
  | _, .last p n => backs n p.tree
  | _, .seq p n l => .list (backs n p.tree) l.tree
  | _, .one e => e.tree
  | _, .more e p => .pipe e.tree p.tree
  | _, .block l rs => wrap l.tree (rs.map Redir.cmd)
  | _, .simple items => wrap (.exec (argv items)) (items.filterMap Item.redircmd)

/-- What comes after a derivation of `k`: the next token ends it. -/
def Ends (k : Sym) : List Token → Prop
  | [] => True
  | .rparen :: _ => True
  | .semi :: _ | .amp :: _ =>
    match k with
    | .line => False
    | _ => True
  | .pipe :: _ =>
    match k with
    | .exec => True
    | _ => False
  | _ => False

section

lemma yield_redirs (l : List Redir) : (l.map redir).flatMap yield = l.flatMap Redir.yield := by
  induction l with
  | nil => rfl
  | cons a l ih => simp [ih,yield]

lemma argv_redirs (l : List Redir) : argv (l.map redir) = [] := by
  induction l with
  | nil => rfl
  | cons a l ih => exact ih

lemma redircmds_redirs (l : List Redir) : (l.map redir).filterMap redircmd = l.map Redir.cmd := by
  induction l with
  | nil => rfl
  | cons a l ih => simp [ih,redircmd]

lemma argv_append (is js : List Item) : argv (is++js) = argv is++argv js := filterMap_append

end

/-- The next token does not start an item of a simple command. -/
def NoItem (r : List Token) : Prop := ∀ i : Item, ∀ t, i.yield.head? = some t → r.head? ≠ some t

section
variable {k : Sym} {r r' : List Token}

lemma Ends.noItem (h : Ends k r) : NoItem r := by
  rintro (⟨q,eq⟩ | ⟨⟨_ | _ | _,q,eq⟩⟩) t ht hr <;> cases ht <;> (cases r with
     | nil => cases hr
     | cons a r => cases hr; exact h)

lemma Ends.ne {a : Token} (h : Ends k r) (ha : ∀ r, ¬Ends k (a :: r)) : r.head? ≠ some a := by
  intro hr
  cases r with
  | nil => cases hr
  | cons b r =>
    cases hr
    exact ha r h

lemma Ends.exec (h : Ends .pipe r) : Ends .exec r := by
  cases r with
  | nil => trivial
  | cons a r => cases a <;> trivial

lemma Ends.pipe (h : Ends .line r) : Ends .pipe r := by
  cases r with
  | nil => trivial
  | cons a r => cases a <;> trivial

lemma ends_amps (n : ℕ) (h : Ends .pipe r) : Ends .pipe (replicate n .amp++r) := by
  cases n with
  | zero => exact h
  | succ n => trivial

lemma amps_unique {n m : ℕ} (h : replicate n Token.amp++r = replicate m .amp++r') (hr : r.head? ≠ some .amp)
    (hr' : r'.head? ≠ some .amp) : n = m ∧ r = r' := by
  induction n generalizing m with
  | zero =>
    cases m with
    | zero => exact ⟨rfl,h⟩
    | succ m =>
      rw [replicate_zero,nil_append] at h
      exact absurd (by rw [h]; rfl) hr
  | succ n ih =>
    cases m with
    | zero =>
      rw [replicate_zero,nil_append] at h
      exact absurd (by rw [← h]; rfl) hr'
    | succ m =>
      obtain ⟨h1,h2⟩ := ih (tail_eq_of_cons_eq h)
      exact ⟨congrArg (·+1) h1,h2⟩

lemma Item.yield_unique {i j : Item} (h : i.yield++r = j.yield++r') : i = j ∧ r = r' := by
  rcases i with ⟨q,eq⟩ | ⟨⟨_ | _ | _,q,eq⟩⟩ <;> rcases j with ⟨q',eq'⟩ | ⟨⟨_ | _ | _,q',eq'⟩⟩ <;>
    simp_all [yield,Redir.yield,Op.token]

lemma Item.head_yield (i : Item) (l : List Token) : ∃ t, i.yield.head? = some t ∧ (i.yield++l).head? = some t := by
  rcases i with ⟨q,eq⟩ | ⟨⟨_ | _ | _,q,eq⟩⟩ <;> exact ⟨_,rfl,rfl⟩

lemma items_unique {is js : List Item} (h : is.flatMap yield++r = js.flatMap yield++r') (hr : NoItem r)
    (hr' : NoItem r') : is = js ∧ r = r' := by
  induction is generalizing js with
  | nil =>
    cases js with
    | nil => exact ⟨rfl,h⟩
    | cons j js =>
      rw [flatMap_cons,append_assoc] at h
      obtain ⟨t,h1,h2⟩ := j.head_yield (js.flatMap yield++r')
      exact absurd ((congrArg head? h).trans h2) (hr j t h1)
  | cons i is ih =>
    cases js with
    | nil =>
      rw [flatMap_cons,append_assoc] at h
      obtain ⟨t,h1,h2⟩ := i.head_yield (is.flatMap yield++r)
      exact absurd ((congrArg head? h).symm.trans h2) (hr' i t h1)
    | cons j js =>
      rw [flatMap_cons,flatMap_cons,append_assoc,append_assoc] at h
      obtain ⟨rfl,h1⟩ := yield_unique h
      obtain ⟨rfl,h2⟩ := ih h1
      exact ⟨rfl,h2⟩

lemma redirs_unique {is js : List Redir} (h : is.flatMap Redir.yield++r = js.flatMap Redir.yield++r') (hr : NoItem r)
    (hr' : NoItem r') : is = js ∧ r = r' := by
  rw [← yield_redirs,← yield_redirs] at h
  obtain ⟨h1,h2⟩ := items_unique h hr hr'
  exact ⟨(map_injective_iff.mpr fun a b hab => redir.inj hab) h1,h2⟩

/-- The grammar is unambiguous: the tokens and what comes after them determine the derivation. -/
lemma Deriv.unique {x y : Deriv k} (h : x.yield++r = y.yield++r') (hr : Ends k r) (hr' : Ends k r') :
    x = y ∧ r = r' := by
  induction x generalizing r r' with
  | last p n ih =>
    cases y with
    | last q m =>
      simp only [Deriv.yield,append_assoc] at h
      obtain ⟨rfl,h1⟩ := ih h (ends_amps n hr.pipe) (ends_amps m hr'.pipe)
      obtain ⟨rfl,h2⟩ := amps_unique h1 (hr.ne fun _ => id) (hr'.ne fun _ => id)
      exact ⟨rfl,h2⟩
    | seq q m l =>
      simp only [Deriv.yield,append_assoc] at h
      obtain ⟨rfl,h1⟩ := ih h (ends_amps n hr.pipe) (ends_amps m trivial)
      obtain ⟨-,h2⟩ := amps_unique h1 (hr.ne fun _ => id) (by simp)
      exact absurd (by rw [h2]; rfl) (hr.ne fun _ => id)
  | seq p n l ihp ihl =>
    cases y with
    | last q m =>
      simp only [Deriv.yield,append_assoc] at h
      obtain ⟨rfl,h1⟩ := ihp h (ends_amps n trivial) (ends_amps m hr'.pipe)
      obtain ⟨-,h2⟩ := amps_unique h1 (by simp) (hr'.ne fun _ => id)
      exact absurd (by rw [← h2]; rfl) (hr'.ne fun _ => id)
    | seq q m l' =>
      simp only [Deriv.yield,append_assoc] at h
      obtain ⟨rfl,h1⟩ := ihp h (ends_amps n trivial) (ends_amps m trivial)
      obtain ⟨rfl,h2⟩ := amps_unique h1 (by simp) (by simp)
      obtain ⟨rfl,h3⟩ := ihl (tail_eq_of_cons_eq h2) hr hr'
      exact ⟨rfl,h3⟩
  | one e ih =>
    cases y with
    | one e' =>
      obtain ⟨rfl,h1⟩ := ih h hr.exec hr'.exec
      exact ⟨rfl,h1⟩
    | more e' p =>
      simp only [Deriv.yield,append_assoc] at h
      obtain ⟨rfl,h1⟩ := ih h hr.exec trivial
      exact absurd (by rw [h1]; rfl) (hr.ne fun _ => id)
  | more e p ihe ihp =>
    cases y with
    | one e' =>
      simp only [Deriv.yield,append_assoc] at h
      obtain ⟨rfl,h1⟩ := ihe h trivial hr'.exec
      exact absurd (by rw [← h1]; rfl) (hr'.ne fun _ => id)
    | more e' p' =>
      simp only [Deriv.yield,append_assoc] at h
      obtain ⟨rfl,h1⟩ := ihe h trivial trivial
      obtain ⟨rfl,h2⟩ := ihp (tail_eq_of_cons_eq h1) hr hr'
      exact ⟨rfl,h2⟩
  | block l rs ih =>
    cases y with
    | block l' rs' =>
      simp only [Deriv.yield,cons_append,append_assoc] at h
      obtain ⟨rfl,h1⟩ := ih (tail_eq_of_cons_eq h) trivial trivial
      obtain ⟨rfl,h2⟩ := redirs_unique (tail_eq_of_cons_eq h1) hr.noItem hr'.noItem
      exact ⟨rfl,h2⟩
    | simple is =>
      have hhead := congrArg head? h
      cases is with
      | nil => exact absurd hhead.symm (hr'.ne fun _ => id)
      | cons i is =>
        rcases i with ⟨q,eq⟩ | ⟨⟨_ | _ | _,q,eq⟩⟩ <;> cases hhead
  | simple is =>
    cases y with
    | block l rs =>
      have hhead := congrArg head? h
      cases is with
      | nil => exact absurd hhead (hr.ne fun _ => id)
      | cons i is =>
        rcases i with ⟨q,eq⟩ | ⟨⟨_ | _ | _,q,eq⟩⟩ <;> cases hhead
    | simple js =>
      obtain ⟨rfl,h1⟩ := items_unique h hr.noItem hr'.noItem
      exact ⟨rfl,h1⟩

end

end Xv6Threads.Shell
