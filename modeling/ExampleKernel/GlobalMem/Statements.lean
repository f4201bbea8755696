import ExampleKernel.GlobalMem.Concurrent

/-! The statements of a read, write or ioctl as relations, and what one of them does to the lock, to the
frame of its process, to the array and to the book of calls. -/
namespace ExampleKernel.GlobalMem.Concurrent
open ExampleKernel.Foundation ExampleKernel.Kernel ExampleKernel.GlobalMem

section Relations
variable (current : Pid) (g : Globalmem) (mutex : Option Pid) (t : Task) (size : ℕ) (buf : ℕ → UInt8)
variable (cmd : UInt32) (c : Choice)

/-- A statement of `globalmem_read` has this outcome. -/
inductive ReadMove : Next → Prop
  | past (hp : globalmemSize ≤ unsignedLong 64 t.ppos) (hpc : t.pc = .enter) :
      ReadMove ⟨{t with pc := .ret, ret := 0},g,mutex,some .skip⟩
  | enter (hp : unsignedLong 64 t.ppos < globalmemSize) (hpc : t.pc = .enter) : ReadMove ⟨{t with
      pc := .lock, p := unsignedLong 64 t.ppos,
      count := clampCount (unsignedInt size) (unsignedLong 64 t.ppos)},g,mutex,none⟩
  | lock (hfree : mutex = none) (hpc : t.pc = .lock) : ReadMove ⟨{t with pc := .copy},g,some current,none⟩
  | empty (hcount : t.count = 0) (hpc : t.pc = .copy) :
      ReadMove ⟨{t with pc := .advance},g,mutex,some (.read t.p [])⟩
  | fault (hcount : t.count ≠ 0) (zeroed : Bool) (hc : c = .fault zeroed) (hpc : t.pc = .copy) :
      ReadMove ⟨{t with pc := .unlock, ret := -efault},g,mutex,some .skip⟩
  | byte (hcount : t.count ≠ 0) (hmore : (t.bytes ++ [g.mem (t.p+t.bytes.length)]).length ≠ t.count)
      (hpc : t.pc = .copy) :
      ReadMove ⟨{t with pc := .copy, bytes := t.bytes ++ [g.mem (t.p+t.bytes.length)]},g,mutex,none⟩
  | last (hcount : t.count ≠ 0) (hlast : (t.bytes ++ [g.mem (t.p+t.bytes.length)]).length = t.count)
      (hpc : t.pc = .copy) :
      ReadMove ⟨{t with pc := .advance, bytes := t.bytes ++ [g.mem (t.p+t.bytes.length)]},g,mutex,
        some (.read t.p (t.bytes ++ [g.mem (t.p+t.bytes.length)]))⟩
  | advance (hpc : t.pc = .advance) : ReadMove ⟨t.advance,g,mutex,none⟩
  | unlock (hpc : t.pc = .unlock) : ReadMove ⟨{t with pc := .flag},g,none,none⟩
  | flag (hpc : t.pc = .flag) : ReadMove ⟨{t with pc := .test},{g with completionFlag := 1},mutex,none⟩
  | first (hfirst : g.dataReadComplete = 0) (hpc : t.pc = .test) :
      ReadMove ⟨{t with pc := .complete},g,mutex,none⟩
  | later (hlater : g.dataReadComplete ≠ 0) (hpc : t.pc = .test) : ReadMove ⟨{t with pc := .ret},g,mutex,none⟩
  | complete (hpc : t.pc = .complete) :
      ReadMove ⟨{t with pc := .ret},{g with dataReadComplete := g.dataReadComplete+1},mutex,none⟩
  | ret (hpc : t.pc = .ret) : ReadMove ⟨{t with pc := .idle},g,mutex,none⟩

/-- The same for `globalmem_write`. -/
inductive WriteMove : Next → Prop
  | past (hp : globalmemSize ≤ unsignedLong 64 t.ppos) (hpc : t.pc = .enter) :
      WriteMove ⟨{t with pc := .ret, ret := 0},g,mutex,some .skip⟩
  | enter (hp : unsignedLong 64 t.ppos < globalmemSize) (hpc : t.pc = .enter) : WriteMove ⟨{t with
      pc := .lock, p := unsignedLong 64 t.ppos,
      count := clampCount (unsignedInt size) (unsignedLong 64 t.ppos)},g,mutex,none⟩
  | lock (hfree : mutex = none) (hpc : t.pc = .lock) : WriteMove ⟨{t with pc := .copy},g,some current,none⟩
  | empty (hcount : t.count = 0) (hpc : t.pc = .copy) :
      WriteMove ⟨{t with pc := .advance},g,mutex,some (.write t.p [])⟩
  | zeroing (hcount : t.count ≠ 0) (hc : c = .fault true) (hpc : t.pc = .copy) :
      WriteMove ⟨{t with pc := .zero, ret := -efault},g,mutex,none⟩
  | fault (hcount : t.count ≠ 0) (hc : c = .fault false) (hpc : t.pc = .copy) :
      WriteMove ⟨{t with pc := .unlock, ret := -efault},g,mutex,some (.write t.p t.bytes)⟩
  | copy (hcount : t.count ≠ 0) (hc : c = .go) (hpc : t.pc = .copy) :
      WriteMove (storeByte g mutex t (buf t.bytes.length) .advance)
  | zero (hpc : t.pc = .zero) : WriteMove (storeByte g mutex t 0 .unlock)
  | advance (hpc : t.pc = .advance) : WriteMove ⟨t.advance,g,mutex,none⟩
  | unlock (hpc : t.pc = .unlock) : WriteMove ⟨{t with pc := .ret},g,none,none⟩
  | ret (hpc : t.pc = .ret) : WriteMove ⟨{t with pc := .idle},g,mutex,none⟩

/-- The same for `globalmem_ioctl`. -/
inductive IoctlMove : Next → Prop
  | memClear (hcmd : cmd = memClear) (hpc : t.pc = .switch) : IoctlMove ⟨{t with pc := .clear},g,mutex,none⟩
  | register (hcmd : cmd = regCurrentTask) (hpc : t.pc = .switch) : IoctlMove
      ⟨{t with pc := .ret, ret := 0},{g with sigTask := some current, sigNum := sigEtx},mutex,some .skip⟩
  | invalid (hclear : cmd ≠ memClear) (hregister : cmd ≠ regCurrentTask) (hpc : t.pc = .switch) :
      IoctlMove ⟨{t with pc := .ret, ret := -einval},g,mutex,some .skip⟩
  | byte (hmore : t.cleared+1 ≠ globalmemSize) (hpc : t.pc = .clear) :
      IoctlMove ⟨{t with pc := .clear, cleared := t.cleared+1},
        {g with mem := Function.update g.mem t.cleared 0},mutex,none⟩
  | last (hlast : t.cleared+1 = globalmemSize) (hpc : t.pc = .clear) :
      IoctlMove ⟨{t with pc := .ret, ret := 0, cleared := t.cleared+1},
        {g with mem := Function.update g.mem t.cleared 0},mutex,some .clear⟩
  | ret (hpc : t.pc = .ret) : IoctlMove ⟨{t with pc := .idle},g,mutex,none⟩

end Relations

section Functions
variable {current : Pid} {g : Globalmem} {mutex : Option Pid} {t : Task} {n : Next} {c : Choice}

theorem read_move {size : ℕ} (h : globalmemRead current g mutex t size c = some n) :
    ReadMove current g mutex t size c n := by
  cases hpc : t.pc <;> simp only [globalmemRead, enter, hpc, reduceCtorEq] at h
  case enter => split_ifs at h with hp <;> cases h <;> [exact .past hp hpc; exact .enter (Nat.lt_of_not_le hp) hpc]
  case lock => split_ifs at h with hfree; cases h; exact .lock hfree hpc
  case copy =>
    by_cases hcount : t.count = 0
    · rw [if_pos hcount] at h; cases h; exact .empty hcount hpc
    · rw [if_neg hcount] at h
      cases c with
      | fault zeroed => cases h; exact .fault hcount zeroed rfl hpc
      | go =>
        dsimp only at h
        split_ifs at h with hlast <;> cases h <;> [exact .last hcount hlast hpc; exact .byte hcount hlast hpc]
  case test =>
    cases h
    split_ifs with hfirst <;> [exact .first hfirst hpc; exact .later hfirst hpc]
  all_goals
    cases h
    first
    | exact .advance hpc
    | exact .unlock hpc
    | exact .flag hpc
    | exact .complete hpc
    | exact .ret hpc

theorem write_move {size : ℕ} {buf : ℕ → UInt8} (h : globalmemWrite current g mutex t size buf c = some n) :
    WriteMove current g mutex t size buf c n := by
  cases hpc : t.pc <;> simp only [globalmemWrite, enter, hpc, reduceCtorEq] at h
  case enter => split_ifs at h with hp <;> cases h <;> [exact .past hp hpc; exact .enter (Nat.lt_of_not_le hp) hpc]
  case lock => split_ifs at h with hfree; cases h; exact .lock hfree hpc
  case copy =>
    split_ifs at h with hcount
    · cases h; exact .empty hcount hpc
    · cases c with
      | fault zeroed => cases zeroed <;> cases h <;> [exact .fault hcount rfl hpc; exact .zeroing hcount rfl hpc]
      | go => cases h; exact .copy hcount rfl hpc
  all_goals
    cases h
    first
    | exact .zero hpc
    | exact .advance hpc
    | exact .unlock hpc
    | exact .ret hpc

theorem ioctl_move {cmd : UInt32} (h : globalmemIoctl current g mutex t cmd = some n) :
    IoctlMove current g mutex t cmd n := by
  cases hpc : t.pc <;> simp only [globalmemIoctl, hpc, reduceCtorEq] at h
  case switch =>
    split_ifs at h with hclear hregister <;> cases h
    · exact .memClear hclear hpc
    · exact .register hregister hpc
    · exact .invalid hclear hregister hpc
  case clear => split_ifs at h with hlast <;> cases h <;> [exact .last hlast hpc; exact .byte hlast hpc]
  case ret => cases h; exact .ret hpc

/-- A statement is one of the three calls. -/
theorem statement_move (h : statement current g mutex t c = some n) :
    (∃ size ppos, t.call = .read size ppos ∧ ReadMove current g mutex t size c n) ∨
    (∃ size ppos buf, t.call = .write size ppos buf ∧ WriteMove current g mutex t size buf c n) ∨
    ∃ cmd, t.call = .ioctl cmd ∧ IoctlMove current g mutex t cmd n := by
  cases hcall : t.call <;> simp only [statement, hcall] at h
  · exact .inl ⟨_,_,rfl,read_move h⟩
  · exact .inr (.inl ⟨_,_,_,rfl,write_move h⟩)
  · exact .inr (.inr ⟨_,rfl,ioctl_move h⟩)

end Functions

def Pc.holds : Pc → Bool
  | .copy | .zero | .advance | .unlock => true
  | _ => false

/-- Whether the call at a program point is still to take effect. -/
def Pc.phase (id : ℕ) : Pc → Phase
  | .idle => .idle
  | .enter | .lock | .copy | .zero | .switch | .clear => .pending id
  | .advance | .unlock | .flag | .test | .complete | .ret => .past id

def Task.phase (t : Task) : Phase := t.pc.phase t.id

/-- The bounds that a frame carries, and the fields that are still fresh. -/
def Task.framed (t : Task) : Prop :=
  match t.pc with
  | .enter | .switch => t.bytes = [] ∧ t.cleared = 0
  | .lock => t.p+t.count ≤ globalmemSize ∧ t.bytes = []
  | .copy => t.p+t.count ≤ globalmemSize ∧ t.bytes.length ≤ t.count ∧ (t.bytes.length = t.count → t.count = 0)
  | .zero => t.p+t.count ≤ globalmemSize ∧ t.bytes.length < t.count
  | .clear => t.cleared < globalmemSize
  | _ => True

/-- The array as the process would leave it now, on top of the operations that took effect. -/
def Task.written (t : Task) (R : ℕ → UInt8) : ℕ → UInt8 :=
  match t.call, t.pc with
  | .write _ _ _, .copy | .write _ _ _, .zero => paste R t.p t.bytes
  | _, _ => R

/-- The process has cleared the cell, and its clear has yet to take effect. -/
def Task.clears (t : Task) (i : ℕ) : Prop := t.pc = .clear ∧ i < t.cleared

/-- The effect of an operation on the sequential array. -/
def effect (R : ℕ → UInt8) : Option ArrayOp → ℕ → UInt8
  | some (.write p bytes) => paste R p bytes
  | some .clear => blit R 0 globalmemSize fun _ => 0
  | _ => R

/-- What a statement does to the array: nothing, or one byte stored by a copy or by a clear. -/
inductive Touch (t : Task) (mem : ℕ → UInt8) (n : Next) : Prop
  | quiet (hmem : n.g.mem = mem) (hwritten : ∀ R, n.task.written (effect R n.op) = t.written R)
    (hclears : ∀ i, n.task.clears i ↔ t.clears i) (hop : n.op ≠ some .clear)
  | store (j : ℕ) (v : UInt8) (hpc : t.pc = .copy ∧ t.count ≠ 0 ∨ t.pc = .zero)
    (hmem : n.g.mem = Function.update mem j v) (hop : n.op ≠ some .clear)
    (hwritten : ∀ R, n.task.written (effect R n.op) = Function.update (t.written R) j v)
    (hclears : ∀ i, ¬ n.task.clears i ∧ ¬ t.clears i)
  | clear (hpc : t.pc = .clear) (hmem : n.g.mem = Function.update mem t.cleared 0) (hop : n.op = none)
    (hlt : t.cleared < globalmemSize) (hclears : ∀ i, n.task.clears i ↔ t.clears i ∨ i = t.cleared)
  | cleared (hpc : t.pc = .clear) (hmem : n.g.mem = Function.update mem t.cleared 0)
    (hop : n.op = some .clear) (hlast : t.cleared+1 = globalmemSize)
    (hclears : ∀ i, ¬ n.task.clears i)

/-- What every statement does to the lock and to the book. -/
structure Obeys (current : Pid) (mutex : Option Pid) (t : Task) (n : Next) : Prop where
  call : n.task.call = t.call
  id : n.task.id = t.id
  lock : n.mutex = (if t.pc = .lock then some current else if t.pc = .unlock then none else mutex)
  free : t.pc = .lock → mutex = none
  holds : n.task.pc.holds = (if t.pc = .lock then true else if t.pc = .unlock then false else t.pc.holds)
  pending : n.op.isSome = true → t.phase = .pending t.id ∧ n.task.phase = .past t.id
  same : n.op = none → t.pc ≠ .ret → n.task.phase = t.phase
  returns : t.pc = .ret → n.task.phase = .idle ∧ n.op = none
  framed : t.framed → n.task.framed

section Statements
variable {current : Pid} {g : Globalmem} {mutex : Option Pid} {t : Task} {n : Next} {c : Choice}
attribute [local simp] Pc.holds Pc.phase Task.phase Task.framed Task.written Task.clears effect
  Task.advance

theorem read_obeys {size : ℕ} (h : ReadMove current g mutex t size c n) : Obeys current mutex t n := by
  cases h <;> rename_i hpc
  case enter hp =>
    have := clampCount_le (unsignedInt size) hp
    constructor <;> simp_all
  all_goals constructor <;> simp_all <;> try omega

theorem storeByte_obeys {v : UInt8} {next : Pc}
    (hpc : t.pc = .copy ∧ t.count ≠ 0 ∧ next = .advance ∨ t.pc = .zero ∧ next = .unlock) :
    Obeys current mutex t (storeByte g mutex t v next) := by
  unfold storeByte
  obtain ⟨hpc,hcount,rfl⟩ | ⟨hpc,rfl⟩ := hpc <;> simp only <;> split_ifs with hlast
  all_goals constructor <;> simp_all <;> try omega

theorem write_obeys {size : ℕ} {buf : ℕ → UInt8} (h : WriteMove current g mutex t size buf c n) :
    Obeys current mutex t n := by
  cases h <;> rename_i hpc
  case enter hp =>
    have := clampCount_le (unsignedInt size) hp
    constructor <;> simp_all
  case copy hcount _ => exact storeByte_obeys (.inl ⟨hpc,hcount,rfl⟩)
  case zero => exact storeByte_obeys (.inr ⟨hpc,rfl⟩)
  all_goals constructor <;> simp_all <;> try omega

theorem ioctl_obeys {cmd : UInt32} (h : IoctlMove current g mutex t cmd n) : Obeys current mutex t n := by
  have hsize : 0 < globalmemSize := by decide
  cases h <;> constructor <;> simp_all
  all_goals omega

theorem statement_obeys (h : statement current g mutex t c = some n) : Obeys current mutex t n := by
  obtain ⟨_,_,-,h⟩ | ⟨_,_,_,-,h⟩ | ⟨_,-,h⟩ := statement_move h
  · exact read_obeys h
  · exact write_obeys h
  · exact ioctl_obeys h

theorem read_touch {size : ℕ} {ppos : ℤ} (hcall : t.call = .read size ppos)
    (h : ReadMove current g mutex t size c n) : Touch t g.mem n := by
  cases h <;> exact .quiet rfl (fun R => by simp [hcall]) (fun i => by simp_all) (by simp)

theorem storeByte_touch {size : ℕ} {ppos : ℤ} {buf : ℕ → UInt8} {v : UInt8} {next : Pc}
    (hcall : t.call = .write size ppos buf) (hpc : t.pc = .copy ∧ t.count ≠ 0 ∨ t.pc = .zero)
    (hnext : next = .advance ∨ next = .unlock) : Touch t g.mem (storeByte g mutex t v next) := by
  have hw : ∀ R, t.written R = paste R t.p t.bytes := by
    intro R
    obtain ⟨hpc,-⟩ | hpc := hpc <;> simp [hcall, hpc]
  unfold storeByte
  simp only
  split_ifs
  · refine .store _ v hpc rfl (by simp) (fun R => ?_) (fun i => ?_)
    · rw [hw]; obtain rfl | rfl := hnext <;> simp [hcall, paste_concat]
    · obtain rfl | rfl := hnext <;> obtain ⟨hpc,-⟩ | hpc := hpc <;> simp [hpc]
  · refine .store _ v hpc rfl (by simp) (fun R => ?_) (fun i => ?_)
    · rw [hw]; obtain ⟨hpc,-⟩ | hpc := hpc <;> simp [hcall, hpc, paste_concat]
    · obtain ⟨hpc,-⟩ | hpc := hpc <;> simp [hpc]

theorem write_touch {size : ℕ} {ppos : ℤ} {buf : ℕ → UInt8} (hcall : t.call = .write size ppos buf)
    (hF : t.framed) (h : WriteMove current g mutex t size buf c n) : Touch t g.mem n := by
  cases h <;> rename_i hpc <;> simp only [Task.framed, hpc] at hF
  case empty hcount =>
    have hbytes : t.bytes = [] := List.eq_nil_of_length_eq_zero (by omega)
    exact .quiet rfl (fun R => by simp [hcall, hpc, hbytes]) (fun i => by simp [hpc]) (by simp)
  case copy hcount _ => exact storeByte_touch hcall (.inl ⟨hpc,hcount⟩) (.inl rfl)
  case zero => exact storeByte_touch hcall (.inr hpc) (.inr rfl)
  case lock => exact .quiet rfl (fun R => by simp [hcall, hpc, hF.2]) (fun i => by simp [hpc]) (by simp)
  all_goals exact .quiet rfl (fun R => by simp [hcall, hpc]) (fun i => by simp_all) (by simp)

theorem ioctl_touch {cmd : UInt32} (hcall : t.call = .ioctl cmd) (hF : t.framed)
    (h : IoctlMove current g mutex t cmd n) : Touch t g.mem n := by
  cases h <;> rename_i hpc <;> simp only [Task.framed, hpc] at hF
  case last hlast => exact .cleared hpc rfl rfl hlast (fun i => by simp)
  case byte => exact .clear hpc rfl rfl hF (fun i => by simp [hpc]; omega)
  case ret => exact .quiet rfl (fun R => by simp [hcall]) (fun i => by simp [hpc]) (by simp)
  all_goals exact .quiet rfl (fun R => by simp [hcall]) (fun i => by simp [hpc, hF.2]) (by simp)

theorem statement_touch (hF : t.framed) (h : statement current g mutex t c = some n) : Touch t g.mem n := by
  obtain ⟨_,_,hcall,h⟩ | ⟨_,_,_,hcall,h⟩ | ⟨_,hcall,h⟩ := statement_move h
  · exact read_touch hcall h
  · exact write_touch hcall hF h
  · exact ioctl_touch hcall hF h

end Statements

/-- What a statement enters in the book, and the bytes of a read that goes on. -/
structure Moves (t : Task) (mem : ℕ → UInt8) (n : Next) : Prop where
  write : ∀ p bytes, n.op = some (.write p bytes) → t.pc.holds = true
  read : ∀ p bytes, n.op = some (.read p bytes) → p = t.p ∧ (bytes = [] ∨
    (∃ size ppos, t.call = .read size ppos) ∧ t.pc = .copy ∧ t.count ≠ 0 ∧
      bytes = t.bytes ++ [mem (t.p+t.bytes.length)])
  copy : n.task.pc = .copy → n.op = none ∧ (n.task.bytes = [] ∨ n.task.p = t.p ∧ t.pc = .copy ∧
    t.count ≠ 0 ∧ ∀ size ppos, t.call = .read size ppos →
      n.task.bytes = t.bytes ++ [mem (t.p+t.bytes.length)])

theorem statement_moves {current : Pid} {g : Globalmem} {mutex : Option Pid} {t : Task} {n : Next}
    {c : Choice} (hF : t.framed) (h : statement current g mutex t c = some n) : Moves t g.mem n := by
  obtain ⟨_,_,hcall,h⟩ | ⟨_,_,_,hcall,h⟩ | ⟨_,hcall,h⟩ := statement_move h
  case inr.inl =>
    cases h <;> rename_i hpc <;> simp only [Task.framed, hpc] at hF
    case copy | zero => unfold storeByte; simp only; split_ifs <;> constructor <;> simp_all [Pc.holds]
    all_goals constructor <;> simp_all [Pc.holds, Task.advance]
  all_goals
    cases h <;> rename_i hpc <;> simp only [Task.framed, hpc] at hF
    all_goals constructor <;> simp_all [Pc.holds, Task.advance]

/-- What a read or write that moved all its bytes amounts to. -/
def Task.outcome (t : Task) : ArrayOp :=
  match t.call with
  | .read _ _ => .read t.p t.bytes
  | .write _ _ _ => .write t.p t.bytes
  | .ioctl _ => .clear

/-- The bytes that a write has moved are the first bytes of its buffer. -/
def Task.sent (t : Task) : Prop :=
  match t.call with
  | .write _ _ buf => t.bytes = slice buf 0 t.bytes.length
  | _ => True

/-- A read or write works where it was asked to, as far as the array goes. -/
def Task.located (t : Task) : Prop :=
  match t.call with
  | .read size ppos | .write size ppos _ =>
    t.p = unsignedLong 64 ppos ∧ t.count = clampCount (unsignedInt size) (unsignedLong 64 ppos)
  | .ioctl _ => True

/-- The position is still the one that the call was given. -/
def Task.asked (t : Task) : Prop :=
  match t.call with
  | .read _ ppos | .write _ ppos _ => t.ppos = ppos
  | .ioctl _ => True

def Task.booked (t : Task) (entries : List (Entry ArrayOp)) : Prop :=
  ∃ e ∈ entries, e.invoked = t.id ∧ e.op = t.outcome

/-- A transfer that returns a number of bytes has moved as many where it was asked to, and stands in the
book; so does a clear. -/
def Task.told (t : Task) (entries : List (Entry ArrayOp)) : Prop :=
  match t.pc with
  | .enter => t.asked
  | .lock => t.located
  | .copy => t.located ∧ t.sent
  | .zero => t.located ∧ t.ret < 0
  | .advance => t.located ∧ t.sent ∧ t.bytes.length = t.count ∧ t.count ≤ globalmemSize ∧ t.booked entries
  | .unlock | .flag | .test | .complete =>
    0 < t.ret → t.located ∧ t.sent ∧ t.ret = t.bytes.length ∧ t.booked entries
  | .ret =>
    (0 < t.ret → t.located ∧ t.sent ∧ t.ret = t.bytes.length ∧ t.booked entries) ∧
      (t.call = .ioctl memClear → t.ret = 0 ∧ t.booked entries)
  | _ => True

theorem Task.booked.mono {t : Task} {es es' : List (Entry ArrayOp)} (hsub : es ⊆ es') (h : t.booked es) :
    t.booked es' := by
  obtain ⟨e,he,hid,hop⟩ := h
  exact ⟨e,hsub he,hid,hop⟩

theorem Task.told.mono {t : Task} {es es' : List (Entry ArrayOp)} (hsub : es ⊆ es') (h : t.told es) :
    t.told es' := by
  cases hpc : t.pc <;> simp only [Task.told, hpc] at h ⊢
  case advance => exact ⟨h.1,h.2.1,h.2.2.1,h.2.2.2.1,h.2.2.2.2.mono hsub⟩
  case ret =>
    refine ⟨fun hret => ?_,fun hcall => ⟨(h.2 hcall).1,(h.2 hcall).2.mono hsub⟩⟩
    obtain ⟨hlocated,hsent,hlen,hbooked⟩ := h.1 hret
    exact ⟨hlocated,hsent,hlen,hbooked.mono hsub⟩
  case unlock | flag | test | complete =>
    intro hret
    obtain ⟨hlocated,hsent,hlen,hbooked⟩ := h hret
    exact ⟨hlocated,hsent,hlen,hbooked.mono hsub⟩
  all_goals exact h

theorem intOf_count {k : ℕ} (h : k ≤ globalmemSize) : intOf k = k := by
  unfold globalmemSize at h
  exact intOf_of_lt (by omega)

section Told
variable {current : Pid} {g : Globalmem} {mutex : Option Pid} {t : Task} {n : Next} {c : Choice}
  {es : List (Entry ArrayOp)}
attribute [local simp] Task.told Task.asked Task.located Task.sent Task.booked Task.outcome Task.advance
  Task.framed efault einval

theorem read_told {size : ℕ} {ppos : ℤ} (hcall : t.call = .read size ppos) (hF : t.framed)
    (hT : t.told es) (hnew : ∀ op, n.op = some op → ∃ e ∈ es, e.invoked = t.id ∧ e.op = op)
    (h : ReadMove current g mutex t size c n) : n.task.told es := by
  cases h <;> rename_i hpc <;> simp only [Task.framed, hpc] at hF <;> simp only [Task.told, hpc] at hT
  case advance =>
    obtain ⟨hlocated,hsent,hlen,hle,hbooked⟩ := hT
    simp only [Task.told, Task.advance]
    intro _
    exact ⟨hlocated,hsent,by rw [intOf_count hle,hlen],hbooked⟩
  case enter => simp_all
  all_goals simp_all <;> try omega

theorem write_told {size : ℕ} {ppos : ℤ} {buf : ℕ → UInt8} (hcall : t.call = .write size ppos buf)
    (hF : t.framed) (hT : t.told es) (hnew : ∀ op, n.op = some op → ∃ e ∈ es, e.invoked = t.id ∧ e.op = op)
    (h : WriteMove current g mutex t size buf c n) : n.task.told es := by
  cases h <;> rename_i hpc <;> simp only [Task.framed, hpc] at hF <;> simp only [Task.told, hpc] at hT
  case advance =>
    obtain ⟨hlocated,hsent,hlen,hle,hbooked⟩ := hT
    simp only [Task.told, Task.advance]
    intro _
    exact ⟨hlocated,hsent,by rw [intOf_count hle,hlen],hbooked⟩
  case empty hcount =>
    have hbytes : t.bytes = [] := List.eq_nil_of_length_eq_zero (by omega)
    simp only [Task.located, hcall] at hT
    simpa [hcall, hbytes, hcount, ← hT.1.2, hT.1.1] using hnew
  case copy hcount _ =>
    obtain ⟨hlocated,hsent⟩ := hT
    simp only [Task.located, Task.sent, hcall] at hlocated hsent
    have hnext : t.bytes ++ [buf t.bytes.length] = slice buf 0 (t.bytes ++ [buf t.bytes.length]).length := by
      rw [List.length_append,List.length_singleton,slice_succ,← hsent,Nat.zero_add]
    unfold storeByte at hnew ⊢
    simp only at hnew ⊢
    split_ifs at hnew ⊢ with hlast
    · simp only [Task.told, Task.located, Task.sent, hcall]
      exact ⟨hlocated,hnext,hlast,by omega,by simpa [hcall] using hnew⟩
    · simp only [Task.told, Task.located, Task.sent, hcall, hpc]
      exact ⟨hlocated,hnext⟩
  case zero =>
    have hret : ¬ 0 < t.ret := by omega
    unfold storeByte
    simp only
    split_ifs
    · exact fun hpos => absurd hpos hret
    · simp only [Task.told, hpc]
      exact hT
  case zeroing => simpa [hcall] using hT.1
  case fault => simp [hcall]
  case unlock => exact ⟨hT,by simp [hcall]⟩
  all_goals simp_all

theorem ioctl_told {cmd : UInt32} (hcall : t.call = .ioctl cmd)
    (hnew : ∀ op, n.op = some op → ∃ e ∈ es, e.invoked = t.id ∧ e.op = op)
    (h : IoctlMove current g mutex t cmd n) : n.task.told es := by
  cases h
  case register hcmd _ =>
    have hne : regCurrentTask ≠ memClear := by decide
    simp [hcall, hcmd, hne]
  all_goals simp_all

theorem statement_told (hF : t.framed) (hT : t.told es)
    (hnew : ∀ op, n.op = some op → ∃ e ∈ es, e.invoked = t.id ∧ e.op = op)
    (h : statement current g mutex t c = some n) : n.task.told es := by
  obtain ⟨_,_,hcall,h⟩ | ⟨_,_,_,hcall,h⟩ | ⟨_,hcall,h⟩ := statement_move h
  · exact read_told hcall hF hT hnew h
  · exact write_told hcall hF hT hnew h
  · exact ioctl_told hcall hnew h

end Told

theorem statement_keeps_out {current : Pid} {g : Globalmem} {mutex : Option Pid} {t : Task} {n : Next}
    {c : Choice} (h : statement current g mutex t c = some n) (hpc : t.pc ≠ .clear ∧ t.pc ≠ .switch) :
    n.task.pc ≠ .clear ∧ n.task.pc ≠ .switch := by
  obtain ⟨_,_,-,h⟩ | ⟨_,_,_,-,h⟩ | ⟨_,-,h⟩ := statement_move h
  case inr.inl =>
    cases h <;> rename_i hpc'
    case copy | zero => unfold storeByte; simp only; split_ifs <;> simp [hpc']
    all_goals simp [Task.advance]
  all_goals cases h <;> simp_all [Task.advance]

end ExampleKernel.GlobalMem.Concurrent
