import Mathlib.Data.UInt
import ExampleKernel.Foundation.CString
import ExampleKernel.GlobalMem.Atomicity

/-! The test program `main_app.cpp`, run by any number of processes at once on one device: what it prints,
with every copy and every clear interleaved byte by byte. -/
namespace ExampleKernel.GlobalMem.Concurrent.App
open ExampleKernel.Foundation ExampleKernel.Kernel ExampleKernel.GlobalMem

/-- A line from `scanf` that fits into `write_buf` with its terminator, or one of the texts of the poll loops. The
`scanf` has no width; what a longer line overwrites is left out. -/
structure Line where
  chars : List UInt8
  fits : chars.length < 1024
  nonzero : 0 ∉ chars

def Line.empty : Line := ⟨[],by decide,List.not_mem_nil⟩

/-- Behind the terminator the buffer is taken to be zero; `write` sends no more than the terminator. -/
def Line.buf (line : Line) (i : ℕ) : UInt8 := line.chars.getD i 0

/-- Where a read stores its bytes: `read_buf` of `main`, or `kernel_val` of `poll_main`, `select_main` and
`epoll_main`. -/
inductive Target
  | readBuf
  | kernelVal
  deriving DecidableEq

def Target.size : Target → ℕ
  | .readBuf => 1024
  | .kernelVal => 20

/-- What a process asks of the device: the options 1 to 4 of `main`, and in the poll loops a read at POLLIN
and a write at POLLOUT. -/
inductive Request
  | write (line : Line)
  | read (target : Target)
  | memClear
  | regCurrentTask

/-- The bytes that a request transfers. -/
def Request.size : Request → Option ℕ
  | .write line => some (line.chars.length+1)
  | .read target => some target.size
  | .memClear | .regCurrentTask => none

/-- The system call of a request. -/
def Request.call (r : Request) (fpos : ℤ) : Call :=
  match r with
  | .write line => .write (line.chars.length+1) fpos line.buf
  | .read target => .read target.size fpos
  | .memClear => .ioctl GlobalMem.memClear
  | .regCurrentTask => .ioctl GlobalMem.regCurrentTask

/-- Where a process is: in the menu or a poll loop, before its `lseek`, before its system call, in it, or
before the `printf` of what it has read. -/
inductive Stage
  | menu
  | lseek (r : Request)
  | call (r : Request)
  | inside (r : Request)
  | printf (target : Target)

/-- Every read and write is preceded by `lseek(fd, 0, SEEK_SET)`. -/
def Request.first (r : Request) : Stage :=
  match r.size with
  | some _ => .lseek r
  | none => .call r

/-- A line on the terminal, none if `printf` runs off the end of the buffer. The rest is history: what the
device held when the read took the mutex, and whether a byte was cleared until it had copied. -/
structure Printed where
  text : Option (List UInt8)
  target : Target
  held : Line
  disturbed : Bool

/-- A process with its file position and the buffer it reads into. `held` and `disturbed` are history, as in
`Printed`. -/
structure Process where
  stage : Stage
  fpos : ℤ
  buf : ℕ → UInt8
  printed : List Printed
  held : Line
  disturbed : Bool

/-- The device with the calls in progress, and the processes. The rest is history: the text that the last
write has stored, none since a clear without a write beside it; whether a byte was cleared since a write last
took the mutex; and which clears have seen no write store a byte. -/
structure Sys where
  machine : Machine
  process : Pid → Process
  held : Line
  disturbed : Bool
  alone : Pid → Bool

def Sys.set (s : Sys) (p : Pid) (pr : Process) : Sys := {s with process := Function.update s.process p pr}

/-- The return of the system call. -/
def Process.finish (pr : Process) (r : Request) (t : Task) : Process :=
  match r with
  | .read target => {pr with fpos := t.ppos, buf := paste pr.buf 0 t.bytes, stage := .printf target}
  | _ => {pr with fpos := t.ppos, stage := .menu}

/-- The process after a statement of its system call. -/
def Process.follow (pr : Process) (s : Sys) (r : Request) (t : Task) : Process :=
  if t.pc = .ret then pr.finish r t
  else match r with
    | .read _ => {pr with
      held := if t.pc = .lock then s.held else pr.held
      disturbed := if t.pc = .copy then s.disturbed else pr.disturbed}
    | _ => pr

/-- The history after a statement, which brings the task to the program point `pc`. -/
def Sys.follow (s : Sys) (p : Pid) (r : Request) (t : Task) (pc : Pc) : Sys :=
  match r with
  | .write line => {s with
    held := if t.pc = .copy ∧ pc ≠ .copy then line else s.held
    disturbed := if t.pc = .lock then false else s.disturbed
    alone := if t.pc = .copy then fun _ => false else s.alone}
  | .memClear => {s with
    held := if t.pc = .clear ∧ pc ≠ .clear ∧ s.alone p then .empty else s.held
    disturbed := if t.pc = .clear then true else s.disturbed
    alone := if t.pc = .switch then Function.update s.alone p true else s.alone}
  | _ => s

inductive Act
  | choose (p : Pid) (r : Request)
  | go (p : Pid)
  | run (p : Pid)

/-- A step of a process: in its menu, of its own code, or of its system call. The buffers of the program are
arrays of its own, so that no copy faults. -/
def step (s : Sys) : Act → Option Sys
  | .choose p r =>
    match (s.process p).stage with
    | .menu => some (s.set p {s.process p with stage := r.first})
    | _ => none
  | .go p =>
    let pr := s.process p
    match pr.stage with
    | .lseek r => some (s.set p {pr with fpos := (globalmemLlseek pr.fpos 0 0).1, stage := .call r})
    | .call r => (Concurrent.step s.machine (.call p (r.call pr.fpos))).map fun m =>
        {s with machine := m}.set p {pr with stage := .inside r}
    | .printf target => some (s.set p {pr with
        stage := .menu
        printed := pr.printed ++ [⟨cString pr.buf target.size 0,target,pr.held,pr.disturbed⟩]})
    | _ => none
  | .run p =>
    let pr := s.process p
    match pr.stage with
    | .inside r => (Concurrent.step s.machine (.run p .go)).map fun m =>
        ({s with machine := m}.follow p r (s.machine.task p) (m.task p).pc).set p
          (pr.follow s r (s.machine.task p))
    | _ => none

/-- The module just loaded, and every process in its menu with the file open. -/
def opened : Sys where
  machine := Concurrent.load
  process := fun _ => ⟨.menu,0,fun _ => 0,[],.empty,false⟩
  held := .empty
  disturbed := false
  alone := fun _ => false

/-- The call has its bytes. -/
def past : Pc → Bool
  | .advance | .unlock | .flag | .test | .complete | .ret => true
  | _ => false

/-- A call that transfers `n` bytes at the start of the device. -/
structure Transfers (t : Task) (n : ℕ) : Prop where
  enter : t.pc = .enter → t.ppos = 0 ∧ t.bytes = []
  lock : t.pc = .lock → t.p = 0 ∧ t.count = n ∧ t.bytes = []
  copy : t.pc = .copy → t.p = 0 ∧ t.count = n ∧ t.bytes.length < n
  done : past t.pc = true → t.bytes.length = n
  stays : t.pc ≠ .zero ∧ t.pc ≠ .idle

section Statements
variable {current : Pid} {g : Globalmem} {mutex : Option Pid} {t : Task} {next : Next} {n : ℕ}

theorem Transfers.entered (ht : Transfers t n) (hpc : t.pc = .enter) (hn : n ≤ globalmemSize) :
    unsignedLong 64 t.ppos = 0 ∧ clampCount (unsignedInt n) (unsignedLong 64 t.ppos) = n := by
  have hp : unsignedLong 64 t.ppos = 0 := by rw [(ht.enter hpc).1]; rfl
  have hsize : globalmemSize = 4096 := rfl
  have hmod : unsignedInt n = n := by
    unfold unsignedInt
    omega
  rw [hp,hmod,clampCount]
  exact ⟨rfl,if_neg (by omega)⟩

/-- A statement of a read of `n` bytes. -/
structure Reads (mem : ℕ → UInt8) (n : ℕ) (t : Task) (next : Next) : Prop where
  keeps : next.g.mem = mem
  transfers : t.pc ≠ .ret → Transfers next.task n
  lock : t.pc = .lock → next.task.pc = .copy ∧ next.task.bytes = []
  copy : t.pc = .copy → next.task.bytes = t.bytes ++ [mem t.bytes.length] ∧
    (next.task.pc = .copy ∨ past next.task.pc = true)
  other : t.pc ≠ .lock → t.pc ≠ .copy → next.task.pc ≠ .copy ∧
    (past next.task.pc = true → past t.pc = true ∧ next.task.bytes = t.bytes)
  returns : t.pc = .ret → next.task.pc = .idle

theorem read_reads (hn : 0 < n ∧ n ≤ globalmemSize) (ht : Transfers t n)
    (h : globalmemRead current g mutex t n .go = some next) : Reads g.mem n t next := by
  cases read_move h <;> rename_i hpc
  case past hp =>
    rw [(ht.entered hpc hn.2).1] at hp
    contradiction
  case enter =>
    obtain ⟨hp,hcount⟩ := ht.entered hpc hn.2
    have hbytes := (ht.enter hpc).2
    constructor <;> simp [past, hpc]
    constructor <;> simp [past, hbytes, hp, hp ▸ hcount]
  case lock =>
    obtain ⟨hp,hcount,hbytes⟩ := ht.lock hpc
    constructor <;> simp [past, hpc, hbytes]
    constructor <;> simp [past, hp, hcount, hn.1]
  case empty hzero => exact absurd hzero (by have := (ht.copy hpc).2.1; omega)
  case fault hc => cases hc
  case byte hmore =>
    obtain ⟨hp,hcount,hlt⟩ := ht.copy hpc
    simp only [List.length_append, List.length_singleton, hcount, hp] at hmore
    constructor <;> simp [past, hpc, hp]
    constructor <;> simp [past, hcount]
    omega
  case last hlast =>
    obtain ⟨hp,hcount,hlt⟩ := ht.copy hpc
    simp only [List.length_append, List.length_singleton, hcount, hp] at hlast
    constructor <;> simp [past, hpc, hp]
    constructor <;> simp [past, hlast]
  all_goals
    have hdone := ht.done (by rw [hpc]; rfl)
    constructor <;> simp [past, hpc, Task.advance]
    try constructor <;> simp [past, hdone]

/-- A statement of a write of a line. -/
structure Writes (mem : ℕ → UInt8) (line : Line) (t : Task) (next : Next) : Prop where
  quiet : t.pc ≠ .copy → next.g.mem = mem
  transfers : t.pc ≠ .ret → Transfers next.task (line.chars.length+1)
  lock : t.pc = .lock → next.task.pc = .copy ∧ next.task.bytes = []
  copy : t.pc = .copy → next.g.mem = Function.update mem t.bytes.length (line.buf t.bytes.length) ∧
    next.task.bytes.length = t.bytes.length+1 ∧
    (next.task.pc = .copy ∨ next.task.pc = .advance ∧ next.task.bytes.length = line.chars.length+1)
  other : t.pc ≠ .lock → t.pc ≠ .copy → next.task.pc ≠ .copy
  returns : t.pc = .ret → next.task.pc = .idle

theorem write_writes {line : Line} (ht : Transfers t (line.chars.length+1))
    (h : globalmemWrite current g mutex t (line.chars.length+1) line.buf .go = some next) :
    Writes g.mem line t next := by
  have hn : line.chars.length+1 ≤ globalmemSize := line.fits.trans_le (by decide)
  cases write_move h <;> rename_i hpc
  case past hp =>
    rw [(ht.entered hpc hn).1] at hp
    contradiction
  case enter =>
    obtain ⟨hp,hcount⟩ := ht.entered hpc hn
    have hbytes := (ht.enter hpc).2
    rw [hp] at hcount
    push_cast at hcount
    constructor <;> simp [hpc]
    constructor <;> simp [past, hbytes, hp, hcount]
  case lock =>
    obtain ⟨hp,hcount,hbytes⟩ := ht.lock hpc
    constructor <;> simp [hpc, hbytes]
    constructor <;> simp [past, hp, hcount]
  case empty hzero => exact absurd hzero (by have := (ht.copy hpc).2.1; omega)
  case zeroing hc | fault hc => cases hc
  case copy =>
    obtain ⟨hp,hcount,hlt⟩ := ht.copy hpc
    simp only [storeByte, List.length_append, List.length_singleton, hcount, hp, Nat.zero_add]
    split_ifs with hlast
    · constructor <;> simp [hpc, hlast]
      constructor <;> simp [past, hlast]
    · constructor <;> simp [hpc]
      constructor <;> simp [past]
      omega
  case zero => exact absurd hpc ht.stays.1
  all_goals
    have hdone := ht.done (by rw [hpc]; rfl)
    constructor <;> simp [hpc, Task.advance]
    try constructor <;> simp [past, hdone]

/-- A statement of `MEM_CLEAR`. -/
structure Clears (mem : ℕ → UInt8) (t : Task) (next : Next) : Prop where
  quiet : t.pc ≠ .clear → next.g.mem = mem
  switch : t.pc = .switch → next.task.cleared = t.cleared
  clear : t.pc = .clear → next.g.mem = Function.update mem t.cleared 0 ∧ next.task.cleared = t.cleared+1 ∧
    (next.task.pc = .clear ∨ next.task.pc = .ret ∧ t.cleared+1 = globalmemSize)
  other : t.pc ≠ .switch → t.pc ≠ .clear → next.task.pc ≠ .clear
  returns : t.pc = .ret → next.task.pc = .idle

theorem clear_clears (h : globalmemIoctl current g mutex t memClear = some next) : Clears g.mem t next := by
  cases ioctl_move h <;> rename_i hpc
  case register hcmd => cases hcmd
  case invalid hclear _ => exact absurd rfl hclear
  all_goals constructor <;> simp_all

/-- A statement of `REG_CURRENT_TASK`. -/
theorem register_quiet (h : globalmemIoctl current g mutex t regCurrentTask = some next)
    (hclear : t.pc ≠ .clear) : next.g.mem = g.mem ∧ next.task.pc ≠ .clear ∧ (t.pc = .ret → next.task.pc = .idle) := by
  cases ioctl_move h <;> rename_i hpc
  case memClear hcmd => cases hcmd
  case byte | last => exact absurd hpc hclear
  all_goals simp [hpc]

end Statements

end ExampleKernel.GlobalMem.Concurrent.App
