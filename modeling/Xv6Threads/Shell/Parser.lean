import Mathlib

/-! The parser of `sh.c`. A pointer into the command string is what is left of the string from there to `es`; its
position is `es` less the length of that. The recursion has a bound, and running into it is a failure of its own. -/
namespace Xv6Threads.Shell

/-- A character of a command string: not NUL. -/
abbrev Ch := {c : UInt8 // c ≠ 0}

abbrev Ptr := List Ch

def whitespace : List UInt8 := [32,9,13,10,11]

/-- `<|>&;()` -/
def symbols : List UInt8 := [60,124,62,38,59,40,41]

def isWhite (c : Ch) : Bool := whitespace.contains c.val

def isSymbol (c : Ch) : Bool := symbols.contains c.val

/-- What `gettoken` returns; `gtgt` is its `+` and `word` its `a`. -/
inductive Tok
  | eof | pipe | lparen | rparen | semi | amp | lt | gt | gtgt | word
  deriving DecidableEq

def skip (s : Ptr) : Ptr := s.dropWhile isWhite

/-- The characters of a word. -/
def isPlain (c : Ch) : Bool := !isWhite c && !isSymbol c

/-- The token, `*q` and `*eq`, and the new `*ps`. -/
def gettoken (es : ℕ) (ps : Ptr) : Tok × ℕ × ℕ × Ptr :=
  let s := skip ps
  let q := es-s.length
  match s with
  | [] => (.eof,q,q,[])
  | c :: t =>
    if c.val = 124 then (.pipe,q,q+1,skip t)
    else if c.val = 40 then (.lparen,q,q+1,skip t)
    else if c.val = 41 then (.rparen,q,q+1,skip t)
    else if c.val = 59 then (.semi,q,q+1,skip t)
    else if c.val = 38 then (.amp,q,q+1,skip t)
    else if c.val = 60 then (.lt,q,q+1,skip t)
    else if c.val = 62 then
      match t with
      | d :: u => if d.val = 62 then (.gtgt,q,q+2,skip u) else (.gt,q,q+1,skip t)
      | [] => (.gt,q,q+1,[])
    else (.word,q,q+(s.takeWhile isPlain).length,skip (s.dropWhile isPlain))

/-- Whether one of `toks` comes next, and the new `*ps`. -/
def peek (ps : Ptr) (toks : List UInt8) : Bool × Ptr :=
  let s := skip ps
  match s with
  | [] => (false,s)
  | c :: _ => (toks.contains c.val,s)

/-- A redirection without its command: the range of the file name, mode and descriptor. -/
structure Redircmd where
  q : ℕ
  eq : ℕ
  mode : ℕ
  fd : ℕ
  deriving DecidableEq

/-- The trees, with words as ranges of the string. -/
inductive Cmd
  | exec (argv : List (ℕ × ℕ))
  | redir (cmd : Cmd) (r : Redircmd)
  | pipe (left right : Cmd)
  | list (left right : Cmd)
  | back (cmd : Cmd)
  deriving DecidableEq

inductive Fail
  | panic (msg : String)
  | fuel
  deriving DecidableEq

abbrev Parse (α : Type) := Except Fail α

def maxargs : ℕ := 10

/-- `O_RDONLY` and `O_WRONLY|O_CREATE` -/
def rdonly : ℕ := 0
def wronlyCreate : ℕ := 0x201

/-- The redirections that `parseredirs` puts around a command, the last one outermost. -/
def wrap (cmd : Cmd) (rs : List Redircmd) : Cmd := rs.foldl .redir cmd

section
variable (es : ℕ)

/-- `parseredirs`; the redirections that it finds come after `rs`. -/
def parseredirs : ℕ → List Redircmd → Ptr → Parse (List Redircmd × Ptr)
  | 0, _, _ => .error .fuel
  | n+1, rs, ps =>
    match peek ps [60,62] with
    | (false,ps) => .ok (rs,ps)
    | (true,ps) =>
      let (tok,_,_,ps) := gettoken es ps
      let (file,q,eq,ps) := gettoken es ps
      if file ≠ .word then .error (.panic "missing file for redirection")
      else
        match tok with
        | .lt => parseredirs n (rs++[⟨q,eq,rdonly,0⟩]) ps
        | .gt => parseredirs n (rs++[⟨q,eq,wronlyCreate,1⟩]) ps
        | .gtgt => parseredirs n (rs++[⟨q,eq,wronlyCreate,1⟩]) ps
        | _ => parseredirs n rs ps

/-- The loop over `&` in `parseline`. -/
def parseback : ℕ → Cmd → Ptr → Parse (Cmd × Ptr)
  | 0, _, _ => .error .fuel
  | n+1, cmd, ps =>
    match peek ps [38] with
    | (false,ps) => .ok (cmd,ps)
    | (true,ps) =>
      let (_,_,_,ps) := gettoken es ps
      parseback n (.back cmd) ps

/-- The loop over the arguments in `parseexec`. -/
def parseargs : ℕ → List (ℕ × ℕ) → List Redircmd → Ptr → Parse (List (ℕ × ℕ) × List Redircmd × Ptr)
  | 0, _, _, _ => .error .fuel
  | n+1, argv, rs, ps =>
    match peek ps [124,41,38,59] with
    | (true,ps) => .ok (argv,rs,ps)
    | (false,ps) =>
      let (tok,q,eq,ps) := gettoken es ps
      if tok = .eof then .ok (argv,rs,ps)
      else if tok ≠ .word then .error (.panic "syntax")
      else if maxargs ≤ argv.length+1 then .error (.panic "too many args")
      else do
        let (rs,ps) ← parseredirs es n rs ps
        parseargs n (argv++[(q,eq)]) rs ps

mutual

def parseline : ℕ → Ptr → Parse (Cmd × Ptr)
  | 0, _ => .error .fuel
  | n+1, ps => do
    let (cmd,ps) ← parsepipe n ps
    let (cmd,ps) ← parseback es n cmd ps
    match peek ps [59] with
    | (false,ps) => .ok (cmd,ps)
    | (true,ps) =>
      let (_,_,_,ps) := gettoken es ps
      let (right,ps) ← parseline n ps
      .ok (.list cmd right,ps)

def parsepipe : ℕ → Ptr → Parse (Cmd × Ptr)
  | 0, _ => .error .fuel
  | n+1, ps => do
    let (cmd,ps) ← parseexec n ps
    match peek ps [124] with
    | (false,ps) => .ok (cmd,ps)
    | (true,ps) =>
      let (_,_,_,ps) := gettoken es ps
      let (right,ps) ← parsepipe n ps
      .ok (.pipe cmd right,ps)

def parseexec : ℕ → Ptr → Parse (Cmd × Ptr)
  | 0, _ => .error .fuel
  | n+1, ps =>
    match peek ps [40] with
    | (true,ps) => parseblock n ps
    | (false,ps) => do
      let (rs,ps) ← parseredirs es n [] ps
      let (argv,rs,ps) ← parseargs es n [] rs ps
      .ok (wrap (.exec argv) rs,ps)

def parseblock : ℕ → Ptr → Parse (Cmd × Ptr)
  | 0, _ => .error .fuel
  | n+1, ps =>
    match peek ps [40] with
    | (false,_) => .error (.panic "parseblock")
    | (true,ps) => do
      let (_,_,_,ps) := gettoken es ps
      let (cmd,ps) ← parseline n ps
      match peek ps [41] with
      | (false,_) => .error (.panic "syntax - missing )")
      | (true,ps) =>
        let (_,_,_,ps) := gettoken es ps
        let (rs,ps) ← parseredirs es n [] ps
        .ok (wrap cmd rs,ps)

end

end

/-- `parsecmd`, with a bound for the recursion that no string meets. -/
def parsecmd (s : Ptr) : Parse Cmd := do
  let (cmd,ps) ← parseline s.length (4*s.length+4) s
  let (_,ps) := peek ps []
  if ps ≠ [] then .error (.panic "syntax") else .ok cmd

end Xv6Threads.Shell
