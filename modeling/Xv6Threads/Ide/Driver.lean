import Xv6Threads.Foundations.Monitor
import Xv6Threads.Param

/-! The disk driver of `ide.c` against the one of `memide.c`. Processes call `iderw`, the drive carries out the command
that was started last and raises an interrupt for it, and some processor runs `ideintr`. What was asked, what has been
answered and who is using a buffer is noted beside the variables of the source. -/
namespace Xv6Threads.Ide
open Function List Option

structure Buf (V : Type) where
  dev : ℕ
  blockno : ℕ
  valid : Bool
  dirty : Bool
  data : V

variable {P B V : Type}

/-- `(b->flags & (B_VALID|B_DIRTY)) == B_VALID` -/
def Buf.done (x : Buf V) : Bool := x.valid && !x.dirty

/-- The blocks of the two disks. -/
abbrev Disk (V : Type) := ℕ → ℕ → V

inductive Cmd (V : Type)
  | read (disk blockno : ℕ)
  | write (disk blockno : ℕ) (x : V)

def Cmd.perform (D : Disk V) : Cmd V → Disk V
  | .read _ _ => D
  | .write i n x => update D i (update (D i) n x)

/-- What the data port has when the command is done. -/
def Cmd.port (D : Disk V) : Cmd V → V
  | .read i n | .write i n _ => D i n

/-- The command of `idestart`: `dev&1` selects the disk. -/
def Buf.cmd (x : Buf V) : Cmd V := if x.dirty then .write (x.dev%2) x.blockno x.data else .read (x.dev%2) x.blockno

/-- How far the drive is with its command: at it, done and the interrupt raised, or the interrupt taken. -/
inductive Stage (V : Type)
  | busy
  | raised (x : V)
  | taken (cpu : ℕ) (x : V)

/-- A request that has been answered, with the disks before it. -/
structure Entry (B V : Type) where
  b : B
  request : Buf V
  disk : Disk V

structure Data (P B V : Type) where
  havedisk1 : Bool
  buf : B → Buf V
  idequeue : List B
  disk : Disk V
  drive : Option (Cmd V × Stage V)
  /-- who holds the sleep-lock of the buffer -/
  owner : B → Option P
  /-- the buffer as it was when `iderw` was called -/
  passed : B → Buf V
  asked : List (B × Buf V)
  answered : List (Entry B V)
  /-- the disks at the start, and after the requests that have been answered -/
  image : Disk V
  mem : Disk V

open Data

inductive Party (P : Type)
  | proc (p : P)
  | drive
  | cpu (n : ℕ)
  deriving DecidableEq

open Party

/-- `iderw` from the call to the first `sleep`, its loop, and `ideintr`. -/
inductive Job (B V : Type)
  | iderw (b : B) (x : Buf V)
  | wait (b : B)
  | ideintr

variable [DecidableEq P] [DecidableEq B]

/-- A process calls `iderw` with a buffer that it has locked and filled in, or a processor takes the interrupt. -/
def Data.call (d : Data P B V) : Party P → Job B V → Option (Data P B V)
  | .proc p, .iderw b x =>
    if (d.owner b = none ∨ d.owner b = some p) ∧ x.done = false ∧ (x.dev = 0 ∨ d.havedisk1 = true) then
      some {d with
        owner := update d.owner b (some p)
        buf := update d.buf b x
        passed := update d.passed b x}
    else none
  | .cpu n, .ideintr =>
    match d.drive with
    | some (c,.raised x) => some {d with drive := some (c,.taken n x)}
    | _ => none
  | _, _ => none

/-- A process unlocks its buffers, or the drive finishes its command. -/
def Data.aside (d : Data P B V) : Party P → Option (Data P B V)
  | .proc p => some {d with owner := fun b => if d.owner b = some p then none else d.owner b}
  | .drive =>
    match d.drive with
    | some (c,.busy) => some {d with disk := c.perform d.disk, drive := some (c,.raised (c.port d.disk))}
    | _ => none
  | .cpu _ => none

/-- The first `idewait` does not return while the drive is at a command. -/
def Data.idestart (d : Data P B V) (b : B) : Option (Data P B V) :=
  if fssize ≤ (d.buf b).blockno then none -- panic
  else if d.drive.isSome then none
  else some {d with drive := some ((d.buf b).cmd,.busy)}

/-- The test of the loop in `iderw`. -/
def Data.await (d : Data P B V) (b : B) : Verdict (Data P B V) (Job B V) B :=
  ⟨d,[],if (d.buf b).done then .leave none else .sleep b (.wait b)⟩

/-- The data port in `insl`. -/
def Data.insl (d : Data P B V) (x : V) : V :=
  match d.drive with
  | some (_,.taken _ v) => v
  | _ => x

/-- The buffer after `ideintr`. -/
def Data.finish (d : Data P B V) (x : Buf V) : Buf V :=
  {x with data := if x.dirty then x.data else d.insl x.data, valid := true, dirty := false}

/-- What the memory disk does for a request, without its tests. -/
def serve (D : Disk V) (x : Buf V) : Disk V × Buf V :=
  (x.cmd.perform D,{x with data := if x.dirty then x.data else D (x.dev%2) x.blockno, valid := true, dirty := false})

/-- `ideintr` takes the first buffer from the queue. -/
def Data.pop (d : Data P B V) (b : B) (q : List B) : Data P B V :=
  {d with
    idequeue := q
    buf := update d.buf b (d.finish (d.buf b))
    drive := none
    answered := d.answered++[⟨b,d.buf b,d.mem⟩]
    mem := (serve d.mem (d.buf b)).1}

/-- `iderw` appends its buffer. -/
def Data.push (d : Data P B V) (b : B) : Data P B V :=
  {d with idequeue := d.idequeue++[b], asked := d.asked++[(b,d.buf b)]}

def Data.body (d : Data P B V) : Job B V → Option (Verdict (Data P B V) (Job B V) B)
  | .iderw b _ =>
    match d.idequeue with
    | [] => ((d.push b).idestart b).map (fun d => d.await b)
    | _ :: _ => some ((d.push b).await b)
  | .wait b => some (d.await b)
  | .ideintr =>
    match d.idequeue with
    | [] => some ⟨d,[],.leave none⟩
    | [b] => some ⟨d.pop b [],[b],.leave none⟩
    | b :: c :: q => ((d.pop b (c :: q)).idestart c).map (fun d => ⟨d,[b],.leave none⟩)

structure Data.Start (d : Data P B V) : Prop where
  idequeue : d.idequeue = []
  drive : d.drive = none
  owner : ∀ b, d.owner b = none
  asked : d.asked = []
  answered : d.answered = []
  image : d.image = d.disk
  mem : d.mem = d.disk

variable (P B V) in
def driver : Monitor (Party P) (Data P B V) Unit (Job B V) B where
  init := Data.Start
  lock _ := ()
  guard _ := ()
  call := Data.call
  aside := Data.aside
  body d _ j := d.body j

/-- `iderw` of `memide.c` on the memory disk `mem` of `size` blocks. -/
def memideIderw (size : ℕ) (mem : ℕ → V) (x : Buf V) : Option ((ℕ → V) × Buf V) :=
  if x.done then none
  else if x.dev ≠ 1 then none
  else if size ≤ x.blockno then none
  else if x.dirty then some (update mem x.blockno x.data,{x with dirty := false, valid := true})
  else some (mem,{x with data := mem x.blockno, valid := true})

omit [DecidableEq P] [DecidableEq B] in
lemma memideIderw_eq_serve {size : ℕ} {D : Disk V} {x : Buf V} (hx : x.done = false) (hdev : x.dev = 1)
    (hsize : x.blockno < size) : memideIderw size (D 1) x = some ((serve D x).1 1,(serve D x).2) := by
  unfold memideIderw serve Buf.cmd
  rw [if_neg (by simp [hx]),if_neg (by simp [hdev]),if_neg (by omega),hdev]
  cases hd : x.dirty <;> simp [Cmd.perform]

/-- The requests answer one after the other, from the disks `D` to the disks `E`. -/
def Answers (D : Disk V) : List (Entry B V) → Disk V → Prop
  | [], E => E = D
  | e :: l, E => e.disk = D ∧ e.request.done = false ∧ Answers (serve D e.request).1 l E

variable {l : List (Entry B V)}

omit [DecidableEq B] in
lemma answers_concat {D E : Disk V} (h : Answers D l E) (b : B) {x : Buf V} (hx : x.done = false) :
    Answers D (l++[⟨b,x,E⟩]) (serve E x).1 := by
  induction l generalizing D with
  | nil =>
    cases h
    exact ⟨rfl,hx,rfl⟩
  | cons e l ih => exact ⟨h.1,h.2.1,ih h.2.2⟩

omit [DecidableEq B] in
/-- If all requests are for blocks of the memory disk, it ends with the contents of disk 1. -/
lemma answers_memide {size : ℕ} {D E : Disk V} (h : Answers D l E)
    (hl : ∀ e ∈ l, e.request.dev = 1 ∧ e.request.blockno < size) :
    (l.map Entry.request).foldlM (fun mem x => (memideIderw size mem x).map Prod.fst) (D 1) = some (E 1) := by
  induction l generalizing D with
  | nil =>
    cases h
    rfl
  | cons e l ih =>
    obtain ⟨hdev,hsize⟩ := hl e mem_cons_self
    have he := memideIderw_eq_serve (D := D) h.2.1 hdev hsize
    rw [map_cons,foldlM_cons,he]
    exact ih h.2.2 fun e' he' => hl e' (mem_cons_of_mem e he')

/-- The last request for `b` was the one that was passed, and the buffer is as the memory disk leaves it. -/
def Served (d : Data P B V) (b : B) : Prop :=
  ∃ l e m, d.answered = l++e :: m ∧ e.b = b ∧ (∀ a ∈ m, a.b ≠ b) ∧ e.request = d.passed b ∧
    (d.passed b).done = false ∧ d.buf b = (serve e.disk e.request).2

/-- The drive is at the command of the first buffer in the queue, and has performed it when it says so. -/
structure AtWork (d : Data P B V) : Prop where
  command : d.drive.map Prod.fst = d.idequeue.head?.map (fun b => (d.buf b).cmd)
  disk : match d.drive with
    | some (c,.raised x) | some (c,.taken _ x) => d.disk = c.perform d.mem ∧ x = c.port d.mem
    | _ => d.disk = d.mem

structure Queued (d : Data P B V) (f : Party P → Option (Job B V)) : Prop where
  nodup : d.idequeue.Nodup
  calling : ∀ {t b x}, f t = some (.iderw b x) → ∃ p, t = .proc p ∧ d.owner b = some p ∧ b ∉ d.idequeue ∧
    d.buf b = x ∧ d.passed b = x ∧ x.done = false
  waiting : ∀ {t b}, f t = some (.wait b) → ∃ p, t = .proc p ∧ d.owner b = some p
  queued : ∀ {b}, b ∈ d.idequeue → (d.buf b).done = false ∧ d.passed b = d.buf b ∧
    ∃ p, d.owner b = some p ∧ f (.proc p) = some (.wait b)
  owned : ∀ {b p}, d.owner b = some p → b ∈ d.idequeue ∨ (∃ x, f (.proc p) = some (.iderw b x)) ∨ Served d b
  handling : ∀ {t}, f t = some .ideintr → ∃ n c x, t = .cpu n ∧ d.drive = some (c,.taken n x)

structure Kept (d : Data P B V) (f : Party P → Option (Job B V)) : Prop where
  queued : Queued d f
  atWork : AtWork d
  answers : Answers d.image d.answered d.mem
  asked : d.asked = d.answered.map (fun e => (e.b,e.request))++d.idequeue.map (fun b => (b,d.buf b))

section
variable {d d' : Data P B V} {f : Party P → Option (Job B V)} {t : Party P} {j : Job B V}

omit [DecidableEq P] [DecidableEq B] in
lemma kept_start (h : d.Start) : Kept d (fun _ => none) := by
  refine ⟨⟨by rw [h.idequeue]; exact nodup_nil,nofun,nofun,fun hb => ?_,fun hb => ?_,nofun⟩,⟨?_,?_⟩,?_,?_⟩
  · rw [h.idequeue] at hb
    cases hb
  · rw [h.owner] at hb
    cases hb
  · rw [h.drive,h.idequeue]
    rfl
  · rw [h.drive]
    exact h.mem.symm
  · rw [h.answered]
    exact h.mem.trans h.image.symm
  · rw [h.asked,h.answered,h.idequeue]
    rfl

variable {b : B}

omit [DecidableEq P] [DecidableEq B] in
lemma Served.congr (h : Served d b) (ha : d'.answered = d.answered) (hp : d'.passed b = d.passed b)
    (hb : d'.buf b = d.buf b) : Served d' b := by
  unfold Served at h ⊢
  rwa [ha,hp,hb]

omit [DecidableEq P] [DecidableEq B] in
lemma Queued.not_queued {p : P} (hQ : Queued d f) (ho : d.owner b = none ∨ d.owner b = some p)
    (hf : f (.proc p) ≠ some (.wait b)) : b ∉ d.idequeue := by
  intro hb
  obtain ⟨-,-,q,hq,hw⟩ := hQ.queued hb
  rcases ho with h | h <;> rw [h] at hq <;> cases hq
  exact hf hw

variable {o : Option (Job B V)}

omit [DecidableEq B] in
lemma job_of_update {u : Party P} {i : Job B V} (h : update f t o u = some i) :
    u = t ∧ o = some i ∨ u ≠ t ∧ f u = some i := by
  by_cases hu : u = t
  · rw [hu,update_self] at h
    exact .inl ⟨hu,h⟩
  · rw [update_of_ne hu] at h
    exact .inr ⟨hu,h⟩

omit [DecidableEq B] in
lemma job_of_other {u : Party P} {i : Job B V} (h : update f t o u = some i)
    (ho : o ≠ some i) : u ≠ t ∧ f u = some i := (job_of_update h).resolve_left fun hj => ho hj.2

variable {x : Buf V}

lemma kept_iderw_call {p : P} (hK : Kept d f) (hf : f (.proc p) = none)
    (ho : d.owner b = none ∨ d.owner b = some p) (hx : x.done = false) : Kept {d with
        owner := update d.owner b (some p)
        buf := update d.buf b x
        passed := update d.passed b x} (update f (.proc p) (some (.iderw b x))) := by
  have hQ := hK.queued
  have hb : b ∉ d.idequeue := hQ.not_queued ho (by rw [hf]; nofun)
  have hne : ∀ a ∈ d.idequeue, a ≠ b := fun a ha hab => hb (hab ▸ ha)
  -- A buffer with another owner is another buffer.
  have hother : ∀ {a q}, d.owner a = some q → q ≠ p → a ≠ b := fun {a q} ha hq hab => by
    rw [hab] at ha
    rcases ho with h | h <;> rw [h] at ha <;> cases ha
    exact hq rfl
  have hproc : ∀ {q}, proc q ≠ .proc p → q ≠ p := fun h hq => h (by rw [hq])
  have hbuf : ∀ a ∈ d.idequeue, update d.buf b x a = d.buf a := fun a ha => update_of_ne (hne a ha) ..
  refine ⟨⟨hQ.nodup,fun {t a y} h => ?_,fun {t a} h => ?_,fun {a} ha => ?_,fun {a q} ha => ?_,fun {t} h => ?_⟩,⟨?_,hK.atWork.disk⟩,
    hK.answers,?_⟩
  · rcases job_of_update h with ⟨ht,hj⟩ | ⟨hu,h⟩
    · cases hj
      rw [ht]
      exact ⟨p,rfl,update_self ..,hb,update_self ..,update_self ..,hx⟩
    · obtain ⟨q,rfl,h1,h2,h3,h4,h5⟩ := hQ.calling h
      have hab := hother h1 (hproc hu)
      exact ⟨q,rfl,(update_of_ne hab ..).trans h1,h2,(update_of_ne hab ..).trans h3, (update_of_ne hab ..).trans h4,h5⟩
  · obtain ⟨hu,h⟩ := job_of_other h nofun
    obtain ⟨q,rfl,h1⟩ := hQ.waiting h
    exact ⟨q,rfl,(update_of_ne (hother h1 (hproc hu)) ..).trans h1⟩
  · obtain ⟨h1,h2,q,h3,h4⟩ := hQ.queued ha
    have hqp : q ≠ p := by
      rintro rfl
      rw [hf] at h4
      cases h4
    refine ⟨?_,?_,q,(update_of_ne (hne a ha) ..).trans h3,(update_of_ne ?_ ..).trans h4⟩
    · change (update d.buf b x a).done = false
      rw [hbuf a ha]
      exact h1
    · change update d.passed b x a = update d.buf b x a
      rw [hbuf a ha,update_of_ne (hne a ha)]
      exact h2
    · simpa using hqp
  · change update d.owner b (some p) a = some q at ha
    by_cases hab : a = b
    · subst hab
      rw [update_self] at ha
      cases ha
      exact .inr (.inl ⟨x,update_self ..⟩)
    · rw [update_of_ne hab] at ha
      rcases hQ.owned ha with h | ⟨y,h⟩ | h
      · exact .inl h
      · have hqp : q ≠ p := by
          rintro rfl
          rw [hf] at h
          cases h
        exact .inr (.inl ⟨y,(update_of_ne (by simpa using hqp) ..).trans h⟩)
      · exact .inr (.inr (h.congr rfl (update_of_ne hab ..) (update_of_ne hab ..)))
  · obtain ⟨-,h⟩ := job_of_other h nofun
    exact hQ.handling h
  · rw [hK.atWork.command]
    change d.idequeue.head?.map _ = d.idequeue.head?.map (fun a => (update d.buf b x a).cmd)
    cases hq : d.idequeue with
    | nil => rfl
    | cons a q =>
      have := hbuf a (by rw [hq]; exact mem_cons_self)
      simp [this]
  · rw [hK.asked]
    congr 1
    refine map_congr_left fun a ha => ?_
    change (a,d.buf a) = (a,update d.buf b x a)
    rw [hbuf a ha]

omit [DecidableEq P] [DecidableEq B] in
lemma Queued.setDrive {o : Option (Cmd V × Stage V)} {D : Disk V} (hQ : Queued d f)
    (hno : ∀ n c x, d.drive ≠ some (c,.taken n x)) : Queued {d with drive := o, disk := D} f :=
  ⟨hQ.nodup,hQ.calling,hQ.waiting,hQ.queued,fun h => (hQ.owned h).imp_right (Or.imp_right fun h => h.congr rfl rfl rfl),fun h => by
    obtain ⟨n,c,x,-,h⟩ := hQ.handling h
    exact absurd h (hno n c x)⟩

lemma kept_call (hK : Kept d f) (hf : f t = none) (h : d.call t j = some d') : Kept d' (update f t (some j)) := by
  unfold call at h
  split at h
  case h_1 p b x =>
    split_ifs at h with hc
    cases h
    exact kept_iderw_call hK hf hc.1 hc.2.1
  case h_2 n =>
    split at h
    case h_1 c x hd =>
      cases h
      have hQ := hK.queued
      have hW := hK.atWork
      refine ⟨⟨hQ.nodup,fun h => ?_,fun h => ?_,fun hb => ?_,fun {b p} ho => ?_,fun h => ?_⟩,⟨?_,?_⟩,hK.answers,hK.asked⟩
      · obtain ⟨-,h⟩ := job_of_other h nofun
        exact hQ.calling h
      · obtain ⟨-,h⟩ := job_of_other h nofun
        exact hQ.waiting h
      · obtain ⟨h1,h2,p,h3,h4⟩ := hQ.queued hb
        exact ⟨h1,h2,p,h3,(update_of_ne (show proc p ≠ .cpu n from nofun) ..).trans h4⟩
      · rcases hQ.owned ho with h | ⟨y,h⟩ | h
        · exact .inl h
        · exact .inr (.inl ⟨y,(update_of_ne (show proc p ≠ .cpu n from nofun) ..).trans h⟩)
        · exact .inr (.inr (h.congr rfl rfl rfl))
      · rcases job_of_update h with ⟨ht,-⟩ | ⟨-,h⟩
        · exact ⟨n,c,x,ht,rfl⟩
        · obtain ⟨m,c',x',-,h⟩ := hQ.handling h
          rw [hd] at h
          cases h
      · rw [← hW.command,hd]
        rfl
      · have := hW.disk
        rw [hd] at this
        exact this
    · cases h
  · cases h

omit [DecidableEq B] in
lemma kept_aside (hK : Kept d f) (hf : f t = none) (h : d.aside t = some d') : Kept d' f := by
  have hQ := hK.queued
  have hW := hK.atWork
  cases t with
  | proc p =>
    cases h
    -- Who has a job is not `p`.
    have hkeep : ∀ {b q i}, f (.proc q) = some i → d.owner b = some q →
        (if d.owner b = some p then none else d.owner b) = some q := fun {b q i} h ho => by
      rw [if_neg,ho]
      intro h'
      rw [ho] at h'
      cases h'
      rw [hf] at h
      cases h
    refine ⟨⟨hQ.nodup,fun {t b x} h => ?_,fun {t b} h => ?_,fun {b} hb => ?_,fun {b q} ho => ?_,hQ.handling⟩,
      ⟨hW.command,hW.disk⟩,hK.answers,hK.asked⟩
    · obtain ⟨q,rfl,h1,h2⟩ := hQ.calling h
      exact ⟨q,rfl,hkeep h h1,h2⟩
    · obtain ⟨q,rfl,h1⟩ := hQ.waiting h
      exact ⟨q,rfl,hkeep h h1⟩
    · obtain ⟨h1,h2,q,h3,h4⟩ := hQ.queued hb
      exact ⟨h1,h2,q,hkeep h4 h3,h4⟩
    · change (if d.owner b = some p then none else d.owner b) = some q at ho
      split_ifs at ho
      exact (hQ.owned ho).imp_right (Or.imp_right fun h => h.congr rfl rfl rfl)
  | drive =>
    simp only [aside] at h
    split at h
    case h_1 c hd =>
      cases h
      have hdisk : d.disk = d.mem := by
        have := hW.disk
        rwa [hd] at this
      refine ⟨hQ.setDrive (by rw [hd]; nofun),⟨?_,?_⟩,hK.answers,hK.asked⟩
      · rw [← hW.command,hd]
        rfl
      · change c.perform d.disk = c.perform d.mem ∧ c.port d.disk = c.port d.mem
        rw [hdisk]
        exact ⟨rfl,rfl⟩
    · cases h
  | cpu n => cases h

omit [DecidableEq B] in
lemma Queued.push {p : P} (hQ : Queued d f) (hf : f (.proc p) = some (.iderw b x)) :
    Queued (d.push b) (update f (.proc p) (some (.wait b))) := by
  obtain ⟨p',hp',ho,hb,hx,hpass,hdone⟩ := hQ.calling hf
  cases hp'
  have hmem : ∀ {a}, a ∈ (d.push b).idequeue ↔ a ∈ d.idequeue ∨ a = b := fun {a} => by
    simp [Data.push]
  refine ⟨?_,fun {t a y} h => ?_,fun {t a} h => ?_,fun {a} ha => ?_,fun {a q} ha => ?_,fun {t} h => ?_⟩
  · exact nodup_append.mpr ⟨hQ.nodup,nodup_singleton b,fun a ha c hc hac => hb (by
      rw [mem_singleton.mp hc] at hac
      exact hac ▸ ha)⟩
  · obtain ⟨hu,h⟩ := job_of_other h nofun
    obtain ⟨q,rfl,h1,h2,h3⟩ := hQ.calling h
    refine ⟨q,rfl,h1,fun ha => (hmem.mp ha).elim h2 fun hab => ?_,h3⟩
    rw [hab,ho] at h1
    cases h1
    exact hu rfl
  · rcases job_of_update h with ⟨ht,hj⟩ | ⟨-,h⟩
    · cases hj
      exact ⟨p,ht,ho⟩
    · exact hQ.waiting h
  · rcases hmem.mp ha with ha | rfl
    · obtain ⟨h1,h2,q,h3,h4⟩ := hQ.queued ha
      refine ⟨h1,h2,q,h3,(update_of_ne (fun hq => ?_) ..).trans h4⟩
      rw [hq,hf] at h4
      cases h4
    · exact ⟨(congrArg Buf.done hx).trans hdone,hpass.trans hx.symm,p,ho,update_self ..⟩
  · rcases hQ.owned ha with h | ⟨y,h⟩ | h
    · exact .inl (hmem.mpr (.inl h))
    · by_cases hq : proc q = .proc p
      · rw [hq,hf] at h
        cases h
        exact .inl (hmem.mpr (.inr rfl))
      · exact .inr (.inl ⟨y,(update_of_ne hq ..).trans h⟩)
    · exact .inr (.inr (h.congr rfl rfl rfl))
  · obtain ⟨-,h⟩ := job_of_other h nofun
    exact hQ.handling h

section
omit [DecidableEq P] [DecidableEq B]

lemma AtWork.idle (hW : AtWork d) (hq : d.idequeue = []) : d.drive = none ∧ d.disk = d.mem := by
  have hd : d.drive = none := by
    have := hW.command
    rw [hq] at this
    exact map_eq_none_iff.mp this
  have := hW.disk
  rw [hd] at this
  exact ⟨hd,this⟩

lemma atWork_idestart (h : d.idestart b = some d') (hq : d.idequeue.head? = some b) (hdisk : d.disk = d.mem) :
    AtWork d' ∧ d' = {d with drive := some ((d.buf b).cmd,.busy)} ∧ d.drive = none := by
  unfold idestart at h
  split_ifs at h with h1 h2
  cases h
  refine ⟨⟨?_,hdisk⟩,rfl,by simpa using h2⟩
  rw [hq]
  rfl

lemma asked_push (hK : Kept d f) :
    (d.push b).asked = (d.push b).answered.map (fun e => (e.b,e.request))++(d.push b).idequeue.map (fun a => (a,(d.push b).buf a)) := by
  simp [push,hK.asked]

end

variable {v : Verdict (Data P B V) (Job B V) B}

lemma kept_iderw (hK : Kept d f) (hf : f t = some (.iderw b x))
    (h : d.body (.iderw b x) = some v) : Kept v.data (update f t v.next.todo) := by
  obtain ⟨p,rfl,-,-,hx,-,hdone⟩ := hK.queued.calling hf
  have hQ := hK.queued.push hf
  -- The request has not been answered: the process goes to sleep.
  have hwait : ∀ d' : Data P B V, d'.buf = d.buf → (d'.await b).next.todo = some (.wait b) := fun d' hd => by
    unfold await
    rw [hd,hx,hdone]
    rfl
  simp only [body] at h
  split at h
  case h_1 hq =>
    obtain ⟨d',hd,rfl⟩ := map_eq_some_iff.mp h
    obtain ⟨hidle,hdisk⟩ := hK.atWork.idle hq
    obtain ⟨hW,rfl,-⟩ := atWork_idestart hd (by simp [push,hq]) hdisk
    rw [hwait {d.push b with drive := some (((d.push b).buf b).cmd,.busy)} rfl]
    refine ⟨hQ.setDrive ?_,hW,hK.answers,asked_push hK⟩
    intro n c y hn
    rw [show d.drive = _ from hn] at hidle
    cases hidle
  case h_2 a q hq =>
    cases h
    rw [hwait (d.push b) rfl]
    refine ⟨hQ,⟨?_,hK.atWork.disk⟩,hK.answers,asked_push hK⟩
    refine hK.atWork.command.trans ?_
    change _ = Option.map (fun a => (d.buf a).cmd) (d.idequeue++[b]).head?
    rw [hq]
    rfl

lemma kept_wait (hK : Kept d f) (hf : f t = some (.wait b))
    (h : d.body (.wait b) = some v) : Kept v.data (update f t v.next.todo) := by
  obtain ⟨p,rfl,ho⟩ := hK.queued.waiting hf
  cases h
  change Kept d _
  cases hdone : (d.buf b).done with
  | false =>
    have : (d.await b).next.todo = f (.proc p) := by
      rw [hf]
      simp [await,hdone,Next.todo]
    rw [this,update_eq_self]
    exact hK
  | true =>
    have : (d.await b).next.todo = none := by simp [await,hdone,Next.todo]
    rw [this]
    have hQ := hK.queued
    refine ⟨⟨hQ.nodup,fun {t a y} h => ?_,fun {t a} h => ?_,fun {a} ha => ?_,fun {a q} ha => ?_,fun {t} h => ?_⟩,
      hK.atWork,hK.answers,hK.asked⟩
    · obtain ⟨-,h⟩ := job_of_other h nofun
      exact hQ.calling h
    · obtain ⟨-,h⟩ := job_of_other h nofun
      exact hQ.waiting h
    · obtain ⟨h1,h2,q,h3,h4⟩ := hQ.queued ha
      refine ⟨h1,h2,q,h3,(update_of_ne (fun hq => ?_) ..).trans h4⟩
      rw [hq,hf] at h4
      cases h4
      rw [hdone] at h1
      cases h1
    · rcases hQ.owned ha with h | ⟨y,h⟩ | h
      · exact .inl h
      · by_cases hq : proc q = .proc p
        · rw [hq,hf] at h
          cases h
        · exact .inr (.inl ⟨y,(update_of_ne hq ..).trans h⟩)
      · exact .inr (.inr h)
    · obtain ⟨-,h⟩ := job_of_other h nofun
      exact hQ.handling h

lemma Queued.pop {n : ℕ} {q : List B} {c : Cmd V} {x : V} (hQ : Queued d f) (hd : d.drive = some (c,.taken n x))
    (hq : d.idequeue = b :: q) (hfin : d.finish (d.buf b) = (serve d.mem (d.buf b)).2) :
    Queued (d.pop b q) (update f (.cpu n) none) := by
  have hnd := hQ.nodup
  rw [hq] at hnd
  have hne : ∀ {a}, a ∈ q → a ≠ b := fun ha hab => (nodup_cons.mp hnd).1 (hab ▸ ha)
  have hsub : ∀ {a}, a ∈ q → a ∈ d.idequeue := fun ha => by
    rw [hq]
    exact mem_cons_of_mem b ha
  have hb : b ∈ d.idequeue := by
    rw [hq]
    exact mem_cons_self
  have hbuf : ∀ {a}, a ≠ b → (d.pop b q).buf a = d.buf a := fun ha => update_of_ne ha ..
  have hproc : ∀ p : P, proc p ≠ .cpu n := nofun
  refine ⟨(nodup_cons.mp hnd).2,fun {t a y} h => ?_,fun {t a} h => ?_,fun {a} ha => ?_,fun {a p} ha => ?_,fun {t} h => ?_⟩
  · obtain ⟨-,h⟩ := job_of_other h nofun
    obtain ⟨p,rfl,h1,h2,h3,h4⟩ := hQ.calling h
    have hab : a ≠ b := fun hab => h2 (hab ▸ hb)
    exact ⟨p,rfl,h1,fun ha => h2 (hsub ha),(hbuf hab).trans h3,h4⟩
  · obtain ⟨-,h⟩ := job_of_other h nofun
    exact hQ.waiting h
  · obtain ⟨h1,h2,p,h3,h4⟩ := hQ.queued (hsub ha)
    rw [hbuf (hne ha)]
    exact ⟨h1,h2,p,h3,(update_of_ne (hproc p) ..).trans h4⟩
  · by_cases hab : a = b
    · subst hab
      obtain ⟨h1,h2,-⟩ := hQ.queued hb
      refine .inr (.inr ⟨d.answered,⟨a,d.buf a,d.mem⟩,[],rfl,rfl,nofun,h2.symm,?_,?_⟩)
      · exact (congrArg Buf.done h2).trans h1
      · exact (update_self ..).trans hfin
    · rcases hQ.owned ha with h | ⟨y,h⟩ | ⟨l,e,m,h1,h2,h3,h4,h5,h6⟩
      · rw [hq] at h
        exact .inl ((mem_cons.mp h).resolve_left hab)
      · exact .inr (.inl ⟨y,(update_of_ne (hproc p) ..).trans h⟩)
      · refine .inr (.inr ⟨l,e,m++[⟨b,d.buf b,d.mem⟩],?_,h2,fun e' he => ?_,h4,h5,(hbuf hab).trans h6⟩)
        · change d.answered++_ = _
          rw [h1]
          simp
        · rcases mem_append.mp he with he | he
          · exact h3 e' he
          · rw [mem_singleton.mp he]
            exact fun h => hab h.symm
  · obtain ⟨hu,h⟩ := job_of_other h nofun
    obtain ⟨m,c',x',rfl,h1⟩ := hQ.handling h
    rw [hd] at h1
    cases h1
    exact absurd rfl hu

omit [DecidableEq P] in
lemma asked_pop {q : List B} (hK : Kept d f) (hq : d.idequeue = b :: q) :
    (d.pop b q).asked = (d.pop b q).answered.map (fun e => (e.b,e.request))++q.map (fun a => (a,(d.pop b q).buf a)) := by
  have hnd := hK.queued.nodup
  rw [hq] at hnd
  have hmap : q.map (fun a => (a,(d.pop b q).buf a)) = q.map (fun a => (a,d.buf a)) := by
    refine map_congr_left fun a ha => ?_
    have hab : a ≠ b := fun hab => (nodup_cons.mp hnd).1 (hab ▸ ha)
    rw [show (d.pop b q).buf a = d.buf a from update_of_ne hab ..]
  rw [hmap]
  change d.asked = (d.answered++[_]).map _++_
  rw [hK.asked,hq]
  simp

lemma kept_ideintr (hK : Kept d f) (hf : f t = some .ideintr)
    (h : d.body .ideintr = some v) : Kept v.data (update f t v.next.todo) := by
  obtain ⟨n,c,x,rfl,hd⟩ := hK.queued.handling hf
  have hcmd := hK.atWork.command
  have hdisk := hK.atWork.disk
  rw [hd] at hcmd hdisk
  obtain ⟨hdisk,hx⟩ := hdisk
  cases hq : d.idequeue with
  | nil =>
    rw [hq] at hcmd
    cases hcmd
  | cons b q =>
    rw [hq] at hcmd
    have hc : c = (d.buf b).cmd := some.inj hcmd
    have hfin : d.finish (d.buf b) = (serve d.mem (d.buf b)).2 := by
      unfold finish serve insl
      rw [hd,hx,hc]
      unfold Buf.cmd
      cases (d.buf b).dirty <;> rfl
    have hpop := hK.queued.pop hd hq hfin
    have hdisk' : (d.pop b q).disk = (d.pop b q).mem := by
      refine hdisk.trans ?_
      rw [hc]
      rfl
    have hans := answers_concat hK.answers b (hK.queued.queued (b := b) (by rw [hq]; exact mem_cons_self)).1
    have hask := asked_pop hK hq
    simp only [body,hq] at h
    split at h
    case h_1 h0 => cases h0
    case h_2 a h1 =>
      cases h1
      cases h
      exact ⟨hpop,⟨rfl,hdisk'⟩,hans,hask⟩
    case h_3 a c q' h1 =>
      cases h1
      obtain ⟨d',hs,rfl⟩ := map_eq_some_iff.mp h
      obtain ⟨hW,rfl,-⟩ := atWork_idestart hs rfl hdisk'
      exact ⟨hpop.setDrive nofun,hW,hans,hask⟩

lemma kept_body (hK : Kept d f) (hf : f t = some j) (h : d.body j = some v) : Kept v.data (update f t v.next.todo) := by
  cases j with
  | iderw b x => exact kept_iderw hK hf h
  | wait b => exact kept_wait hK hf h
  | ideintr => exact kept_ideintr hK hf h

omit [DecidableEq P] [DecidableEq B] in
lemma Served.done (h : Served d b) : (d.buf b).valid = true ∧ (d.buf b).dirty = false := by
  obtain ⟨l,e,m,-,-,-,-,-,h⟩ := h
  rw [h]
  exact ⟨rfl,rfl⟩

end

variable {s : Monitor.State (Party P) (Data P B V) Unit (Job B V) B}

lemma reach_kept (h : (driver P B V).system.Reachable s) : Kept s.data (fun t => (s.pc t).todo) :=
  Monitor.data_invariant (fun _ h => kept_start h) (fun hK hf h => kept_call hK hf h)
    (fun hK hf h => kept_aside hK hf h) (fun hK hf h => kept_body hK hf h) h

/-- A process sleeps on a buffer of its own that has not been answered. -/
def HasToWait (d : Data P B V) (t : Party P) (b : B) (j : Job B V) : Prop :=
  (∃ p, t = .proc p ∧ d.owner b = some p) ∧ j = .wait b ∧ (d.buf b).done = false

variable {b : B}

omit [DecidableEq P] [DecidableEq B] in
lemma HasToWait.congr {d d' : Data P B V} {t : Party P} {j : Job B V} (h : HasToWait d t b j)
    (ho : d'.owner b = d.owner b) (hb : d'.buf b = d.buf b) : HasToWait d' t b j := by
  unfold HasToWait at h ⊢
  rwa [ho,hb]

omit [DecidableEq P] [DecidableEq B] in
lemma idestart_eq {d d' : Data P B V} (h : d.idestart b = some d') : d'.owner = d.owner ∧ d'.buf = d.buf := by
  unfold idestart at h
  split_ifs at h
  cases h
  exact ⟨rfl,rfl⟩

variable {v : Verdict (Data P B V) (Job B V) B}

omit [DecidableEq P] in
lemma body_frame {d : Data P B V} {j : Job B V} (h : d.body j = some v)
    (hb : b ∉ v.wakes) : v.data.owner b = d.owner b ∧ v.data.buf b = d.buf b := by
  cases j with
  | iderw a x =>
    simp only [body] at h
    split at h
    · obtain ⟨d',hd,rfl⟩ := map_eq_some_iff.mp h
      obtain ⟨h1,h2⟩ := idestart_eq hd
      exact ⟨congrFun h1 b,congrFun h2 b⟩
    · cases h
      exact ⟨rfl,rfl⟩
  | wait a =>
    cases h
    exact ⟨rfl,rfl⟩
  | ideintr =>
    simp only [body] at h
    split at h
    · cases h
      exact ⟨rfl,rfl⟩
    · cases h
      exact ⟨rfl,update_of_ne (fun h => hb (mem_singleton.mpr h)) ..⟩
    · obtain ⟨d',hd,rfl⟩ := map_eq_some_iff.mp h
      obtain ⟨h1,h2⟩ := idestart_eq hd
      refine ⟨congrFun h1 b,(congrFun h2 b).trans ?_⟩
      exact update_of_ne (fun h => hb (mem_singleton.mpr h)) ..

omit [DecidableEq P] in
lemma body_sleep {d : Data P B V} {j k : Job B V} (h : d.body j = some v)
    (hn : v.next = .sleep b k) :
    k = .wait b ∧ (v.data.buf b).done = false ∧ v.data.owner = d.owner ∧ (j = .wait b ∨ ∃ x, j = .iderw b x) := by
  have hawait : ∀ {d' : Data P B V} {a}, (d'.await a).next = .sleep b k → b = a ∧ k = .wait b ∧ (d'.buf b).done = false :=
    fun {d' a} ha => by
      simp only [await] at ha
      split_ifs at ha with hd
      cases ha
      exact ⟨rfl,rfl,by simpa using hd⟩
  cases j with
  | iderw a x =>
    simp only [body] at h
    split at h
    · obtain ⟨d',hd,rfl⟩ := map_eq_some_iff.mp h
      obtain ⟨rfl,hk,hdone⟩ := hawait hn
      exact ⟨hk,hdone,(idestart_eq hd).1,.inr ⟨x,rfl⟩⟩
    · cases h
      obtain ⟨rfl,hk,hdone⟩ := hawait hn
      exact ⟨hk,hdone,rfl,.inr ⟨x,rfl⟩⟩
  | wait a =>
    cases h
    obtain ⟨rfl,hk,hdone⟩ := hawait hn
    exact ⟨hk,hdone,rfl,.inl rfl⟩
  | ideintr =>
    simp only [body] at h
    split at h
    · cases h
      cases hn
    · cases h
      cases hn
    · obtain ⟨d',hd,rfl⟩ := map_eq_some_iff.mp h
      cases hn

lemma driver_signals : (driver P B V).Signals HasToWait (fun s => Kept s.data (fun t => (s.pc t).todo)) where
  call {s t j d u b k} _ _ h hut hw := by
    change s.data.call t j = some d at h
    unfold call at h
    split at h
    case h_1 p a x _ =>
      split_ifs at h with hc
      cases h
      obtain ⟨q,rfl,ho⟩ := hw.1
      have hab : b ≠ a := by
        rintro rfl
        rcases hc.1 with h | h <;> rw [h] at ho <;> cases ho
        exact hut rfl
      exact hw.congr (update_of_ne hab ..) (update_of_ne hab ..)
    case h_2 n =>
      split at h <;> cases h
      exact hw.congr rfl rfl
    · cases h
  aside {s t d u b k} _ _ h hut hw := by
    change s.data.aside t = some d at h
    cases t with
    | proc p =>
      cases h
      obtain ⟨q,rfl,ho⟩ := hw.1
      refine hw.congr (if_neg fun h => ?_) rfl
      rw [ho] at h
      cases h
      exact hut rfl
    | drive =>
      simp only [aside] at h
      split at h <;> cases h
      exact hw.congr rfl rfl
    | cpu n => cases h
  body {s t j v u b k} _ _ h _ hw := by
    by_cases hb : b ∈ v.wakes
    · exact .inr ⟨hb,rfl⟩
    · obtain ⟨h1,h2⟩ := body_frame h hb
      exact .inl (hw.congr h1 h2)
  sleep {s t j v b k} hI hpc h hn := by
    obtain ⟨rfl,hdone,ho,hj⟩ := body_sleep h hn
    have htodo : (s.pc t).todo = some j := by
      rw [hpc]
      rfl
    refine ⟨⟨?_,rfl,hdone⟩,rfl⟩
    rw [ho]
    rcases hj with rfl | ⟨x,rfl⟩
    · exact hI.queued.waiting htodo
    · obtain ⟨p,hp,ho,-⟩ := hI.queued.calling htodo
      exact ⟨p,hp,ho⟩

/-- The driver refines the memory disk. The queue has no duplicates and its head is the command in progress; the
requests are answered in the order in which they were queued, each once; nobody sleeps on an answered buffer while
`idelock` is free; and when `iderw(b)` has returned, the buffer and the disk are as `memide.c` leaves them. -/
theorem driver_refines_memide (h : (driver P B V).system.Reachable s) : s.data.idequeue.Nodup ∧ AtWork s.data ∧
    s.data.asked = s.data.answered.map (fun e => (e.b,e.request))++s.data.idequeue.map (fun b => (b,s.data.buf b)) ∧
    (s.lock () = none → ∀ t b, s.sleeping t = true → s.chan t = some b → (s.data.buf b).done = false) ∧
    (Answers s.data.image s.data.answered s.data.mem ∧
      ∀ size, (∀ e ∈ s.data.answered, e.request.dev = 1 ∧ e.request.blockno < size) →
        (s.data.answered.map Entry.request).foldlM (fun mem x => (memideIderw size mem x).map Prod.fst)
          (s.data.image 1) = some (s.data.mem 1)) ∧
    ∀ p b, s.data.owner b = some p → (∀ x, (s.pc (.proc p)).todo ≠ some (.iderw b x)) →
      (s.pc (.proc p)).todo ≠ some (.wait b) → (s.data.buf b).valid = true ∧ (s.data.buf b).dirty = false ∧
      ∃ l e m, s.data.answered = l++e :: m ∧ e.b = b ∧ (∀ a ∈ m, a.b ≠ b) ∧ e.request = s.data.passed b ∧
        ∀ size, (s.data.passed b).dev = 1 → (s.data.passed b).blockno < size →
          memideIderw size (e.disk 1) (s.data.passed b) = some ((serve e.disk e.request).1 1,s.data.buf b) := by
  have hK := reach_kept h
  refine ⟨hK.queued.nodup,hK.atWork,hK.asked,fun hfree t b hs hc => ?_,
    ⟨hK.answers,fun size hl => answers_memide hK.answers hl⟩,fun p b ho h1 h2 => ?_⟩
  · obtain ⟨k,-,hw⟩ := Monitor.has_to_wait driver_signals (fun s h => reach_kept h) h hfree hs hc
    exact hw.2.2
  · have hS : Served s.data b := by
      rcases hK.queued.owned ho with h | ⟨x,h⟩ | h
      · obtain ⟨-,-,q,hq,hw⟩ := hK.queued.queued h
        rw [ho] at hq
        cases hq
        exact absurd hw h2
      · exact absurd h (h1 x)
      · exact h
    refine ⟨hS.done.1,hS.done.2,?_⟩
    obtain ⟨l,e,m,ha,hb,hm,hreq,hdone,hbuf⟩ := hS
    refine ⟨l,e,m,ha,hb,hm,hreq,fun size hdev hsize => ?_⟩
    rw [hbuf,hreq]
    exact memideIderw_eq_serve hdone hdev hsize

/-- One process, one buffer, and disks full of zeroes. -/
def booted : Monitor.State (Party Unit) (Data Unit Unit ℕ) Unit (Job Unit ℕ) Unit where
  data := ⟨true,fun _ => ⟨0,0,false,false,0⟩,[],fun _ _ => 0,none,fun _ => none,fun _ => ⟨0,0,false,false,0⟩,[],[],
    fun _ _ => 0,fun _ _ => 0⟩
  lock _ := none
  table := none
  sleeping _ := false
  chan _ := none
  pc _ := .idle

lemma booted_start : (driver Unit Unit ℕ).Start booted :=
  ⟨⟨rfl,rfl,fun _ => rfl,rfl,rfl,rfl,rfl⟩,fun _ => rfl,rfl,fun _ => rfl,fun _ => rfl⟩

/-- A block is written: the call, the drive, the interrupt, and the return. -/
theorem write_returns : ∃ s, (driver Unit Unit ℕ).system.Reachable s ∧ s.data.owner () = some () ∧
    s.data.disk 1 2 = 7 ∧ (s.data.buf ()).valid = true ∧ (s.data.buf ()).dirty = false := by
  have hrun : ∃ s, (driver Unit Unit ℕ).system.Reachable s ∧
      s.data.owner () = some () ∧ s.data.disk 1 2 = 7 ∧ (s.pc (.proc ())).todo.isNone = true :=
    System.reachable_of_exec
      (List.flatten [[.call (.proc ()) (.iderw () ⟨1,2,false,true,7⟩)],List.replicate 5 (.run (.proc ())),
        [.aside .drive,.call (.cpu 0) .ideintr],List.replicate 4 (.run (.cpu 0)),List.replicate 5 (.run (.proc ()))]) _
      booted_start (by decide +kernel)
  obtain ⟨s,hs,h1,h2,h3⟩ := hrun
  have hnone := isNone_iff_eq_none.mp h3
  have hret := (driver_refines_memide hs).2.2.2.2.2 () () h1 (fun x => by rw [hnone]; nofun) (by rw [hnone]; nofun)
  exact ⟨s,hs,h1,h2,hret.1,hret.2.1⟩

end Xv6Threads.Ide
