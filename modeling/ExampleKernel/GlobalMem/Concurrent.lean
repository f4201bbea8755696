import ExampleKernel.Foundation.Linearization
import ExampleKernel.GlobalMem.Device

/-! Reads, writes and ioctls of globalmem by many processes at once. The user copies and the
`memset` of `MEM_CLEAR` move one byte at a step; the other statements are one step each. -/
namespace ExampleKernel.GlobalMem.Concurrent
open ExampleKernel.Foundation ExampleKernel.Kernel ExampleKernel.GlobalMem

inductive Call
  | read (size : ℕ) (ppos : ℤ)
  | write (size : ℕ) (ppos : ℤ) (buf : ℕ → UInt8)
  | ioctl (cmd : UInt32)

inductive Pc
  | idle
  | enter | lock | copy | zero | advance | unlock | flag | test | complete | ret
  | switch | clear
  deriving DecidableEq, Repr

/-- A process with the locals of its call. `bytes` are the bytes moved so far in either direction,
`cleared` counts the bytes that `memset` has stored; `id` is the time of the call. -/
structure Task where
  call : Call
  pc : Pc
  id : ℕ
  p : ℕ
  count : ℕ
  bytes : List UInt8
  cleared : ℕ
  ppos : ℤ
  ret : ℤ

/-- Whether a user copy faults at its next byte, and whether it then zeroes the rest. -/
inductive Choice
  | go
  | fault (zeroed : Bool)
  deriving DecidableEq, Repr

/-- What a call did to the array once it is through with it. -/
inductive ArrayOp
  | read (p : ℕ) (bytes : List UInt8)
  | write (p : ℕ) (bytes : List UInt8)
  | clear
  | skip
  deriving DecidableEq, Repr

/-- The outcome of a statement. -/
structure Next where
  task : Task
  g : Globalmem
  mutex : Option Pid
  op : Option ArrayOp

/-- Entry of a read or write: the position check and the clamp. -/
def enter (g : Globalmem) (mutex : Option Pid) (t : Task) (size : ℕ) : Next :=
  let p := unsignedLong 64 t.ppos
  if p ≥ globalmemSize then ⟨{t with pc := .ret, ret := 0},g,mutex,some .skip⟩
  else ⟨{t with pc := .lock, p := p, count := clampCount (unsignedInt size) p},g,mutex,none⟩

/-- `*ppos += count; ret = count;` -/
def Task.advance (t : Task) : Task :=
  {t with pc := .unlock, ppos := loffT (t.ppos+t.count), ret := intOf t.count}

def globalmemRead (current : Pid) (g : Globalmem) (mutex : Option Pid) (t : Task) (size : ℕ) (c : Choice) :
    Option Next :=
  match t.pc with
  | .enter => some (enter g mutex t size)
  | .lock => if mutex = none then some ⟨{t with pc := .copy},g,some current,none⟩ else none
  | .copy =>
    if t.count = 0 then some ⟨{t with pc := .advance},g,mutex,some (.read t.p [])⟩
    else match c with
      | .fault _ => some ⟨{t with pc := .unlock, ret := -efault},g,mutex,some .skip⟩
      | .go =>
        let bytes := t.bytes ++ [g.mem (t.p+t.bytes.length)]
        if bytes.length = t.count then
          some ⟨{t with pc := .advance, bytes := bytes},g,mutex,some (.read t.p bytes)⟩
        else some ⟨{t with bytes := bytes},g,mutex,none⟩
  | .advance => some ⟨t.advance,g,mutex,none⟩
  | .unlock => some ⟨{t with pc := .flag},g,none,none⟩
  | .flag => some ⟨{t with pc := .test},{g with completionFlag := 1},mutex,none⟩
  | .test => some ⟨{t with pc := if g.dataReadComplete = 0 then .complete else .ret},g,mutex,none⟩
  | .complete => some ⟨{t with pc := .ret},{g with dataReadComplete := g.dataReadComplete+1},mutex,none⟩
  | .ret => some ⟨{t with pc := .idle},g,mutex,none⟩
  | _ => none

/-- Store the next byte of a write; the last one brings the task to `next`. -/
def storeByte (g : Globalmem) (mutex : Option Pid) (t : Task) (v : UInt8) (next : Pc) : Next :=
  let g' := {g with mem := Function.update g.mem (t.p+t.bytes.length) v}
  let bytes := t.bytes ++ [v]
  if bytes.length = t.count then
    ⟨{t with pc := next, bytes := bytes},g',mutex,some (.write t.p bytes)⟩
  else ⟨{t with bytes := bytes},g',mutex,none⟩

def globalmemWrite (current : Pid) (g : Globalmem) (mutex : Option Pid) (t : Task) (size : ℕ)
    (buf : ℕ → UInt8) (c : Choice) : Option Next :=
  match t.pc with
  | .enter => some (enter g mutex t size)
  | .lock => if mutex = none then some ⟨{t with pc := .copy},g,some current,none⟩ else none
  | .copy =>
    if t.count = 0 then some ⟨{t with pc := .advance},g,mutex,some (.write t.p [])⟩
    else match c with
      | .fault true => some ⟨{t with pc := .zero, ret := -efault},g,mutex,none⟩
      | .fault false => some ⟨{t with pc := .unlock, ret := -efault},g,mutex,some (.write t.p t.bytes)⟩
      | .go => some (storeByte g mutex t (buf t.bytes.length) .advance)
  | .zero => some (storeByte g mutex t 0 .unlock)
  | .advance => some ⟨t.advance,g,mutex,none⟩
  | .unlock => some ⟨{t with pc := .ret},g,none,none⟩
  | .ret => some ⟨{t with pc := .idle},g,mutex,none⟩
  | _ => none

def globalmemIoctl (current : Pid) (g : Globalmem) (mutex : Option Pid) (t : Task) (cmd : UInt32) :
    Option Next :=
  match t.pc with
  | .switch =>
    if cmd = memClear then some ⟨{t with pc := .clear},g,mutex,none⟩
    else if cmd = regCurrentTask then
      some ⟨{t with pc := .ret, ret := 0},{g with sigTask := some current, sigNum := sigEtx},mutex,some .skip⟩
    else some ⟨{t with pc := .ret, ret := -einval},g,mutex,some .skip⟩
  | .clear =>
    let g' := {g with mem := Function.update g.mem t.cleared 0}
    if t.cleared+1 = globalmemSize then
      some ⟨{t with pc := .ret, ret := 0, cleared := t.cleared+1},g',mutex,some .clear⟩
    else some ⟨{t with cleared := t.cleared+1},g',mutex,none⟩
  | .ret => some ⟨{t with pc := .idle},g,mutex,none⟩
  | _ => none

def statement (current : Pid) (g : Globalmem) (mutex : Option Pid) (t : Task) (c : Choice) : Option Next :=
  match t.call with
  | .read size _ => globalmemRead current g mutex t size c
  | .write size _ buf => globalmemWrite current g mutex t size buf c
  | .ioctl cmd => globalmemIoctl current g mutex t cmd

/-- The device, the processes and the book of their calls. -/
structure Machine where
  g : Globalmem
  mutex : Option Pid
  task : Pid → Task
  book : Book ArrayOp

inductive Act
  | call (p : Pid) (c : Call)
  | run (p : Pid) (c : Choice)

/-- A fresh frame. -/
def Task.ofCall (c : Call) (id : ℕ) : Task where
  call := c
  pc := match c with
    | .ioctl _ => .switch
    | _ => .enter
  id := id
  p := 0
  count := 0
  bytes := []
  cleared := 0
  ppos := match c with
    | .read _ ppos => ppos
    | .write _ ppos _ => ppos
    | .ioctl _ => 0
  ret := 0

/-- Enter the outcome of a statement of the task in the book. -/
def record (b : Book ArrayOp) (t : Task) (op : Option ArrayOp) : Book ArrayOp :=
  if t.pc = .ret then b.finish t.id
  else match op with
    | some op => b.log t.id op
    | none => b.tick

def step (m : Machine) : Act → Option Machine
  | .call p c =>
    if (m.task p).pc = .idle then
      some {m with task := Function.update m.task p (.ofCall c m.book.clock), book := m.book.tick}
    else none
  | .run p c => (statement p m.g m.mutex (m.task p) c).map fun n =>
      ⟨n.g,n.mutex,Function.update m.task p n.task,record m.book (m.task p) n.op⟩

/-- The module as loaded, with no call in progress. -/
def load : Machine where
  g := ⟨fun _ => 0,none,0,0,0⟩
  mutex := none
  task := fun _ => {Task.ofCall (.ioctl 0) 0 with pc := .idle}
  book := .empty

/-- The sequential array: a read must return what is there. -/
def arrayStep (mem : ℕ → UInt8) : ArrayOp → Option (ℕ → UInt8)
  | .read p bytes => if bytes = slice mem p bytes.length then some mem else none
  | .write p bytes => some (paste mem p bytes)
  | .clear => some (blit mem 0 globalmemSize fun _ => 0)
  | .skip => some mem

/-- A copy that has moved a byte and is not through. -/
def Task.copying (t : Task) : Bool := t.pc = .copy && t.bytes ≠ [] || t.pc = .zero

/-- A `memset` that has stored a byte and is not through. -/
def Task.clearing (t : Task) : Bool := t.pc = .clear && t.cleared ≠ 0

/-- No byte is cleared while a copy is under way, and none is copied while a clear is. -/
def Separate (m : Machine) : Act → Prop
  | .run p _ =>
    ((m.task p).pc = .clear → ∀ q, (m.task q).copying = false) ∧
    ((m.task p).pc = .copy ∧ (m.task p).count ≠ 0 ∨ (m.task p).pc = .zero →
      ∀ q, (m.task q).clearing = false)
  | _ => True

end ExampleKernel.GlobalMem.Concurrent
