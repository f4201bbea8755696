import ExampleKernel.Foundation.Buffer
import ExampleKernel.Foundation.BoundedQueue
import ExampleKernel.Kernel.Basic

/-! The device structure of globalfifo, the calls that processes make on it, and the frame of
a call in progress. Frames also describe the poll core that calls `globalfifo_poll`, since a
poller sleeps there and not in the driver. -/
namespace ExampleKernel.GlobalFifo
open ExampleKernel.Foundation ExampleKernel.Kernel

def globalfifoSize : UInt32 := 0x1000
def fifoClear : UInt32 := 0x1

/-- `r` is the wait queue `r_wait` of the readers, `w` the wait queue `w_wait` of the writers. -/
inductive Side
  | r
  | w
  deriving DecidableEq, Repr

/-- `struct globalfifo_dev` without its `cdev`. The array is a window of a flat memory, so
cells from `globalfifoSize` on lie behind it. -/
structure GlobalfifoDev where
  currentLen : UInt32
  mem : ℕ → UInt8
  mutex : Option Pid
  wait : Side → List Pid
  asyncQueue : List FileId

/-- The events a poller asks for; `pollin` stands for `POLLIN | POLLRDNORM`, which the driver
sets only together, and `pollout` for `POLLOUT | POLLWRNORM`. -/
structure Events where
  pollin : Bool
  pollout : Bool
  deriving DecidableEq, Repr

/-- A system call that ends in one of the file operations. -/
inductive Call
  | read (nonblock : Bool) (count : UInt64)
  | write (nonblock : Bool) (count : UInt64) (buf : ℕ → UInt8)
  | ioctl (cmd : UInt32)
  | poll (events : Events)

/-- The statement that a task executes next. The `sel` points belong to the poll core. -/
inductive Pc
  | idle
  | lock | addWait | test | sleep | unlock | schedule | asleep | resume | relock
  | clamp | copy | shift | account | wake | sigio | out | removeWait | setRunning | ret
  | ioctlSwitch | ioctlLock | ioctlClear | ioctlMemset | ioctlUnlock
  | pollLock | pollWaitR | pollWaitW | pollTestR | pollTestW | pollUnlock | pollRet
  | selCheck | selSleep | selSchedule | selAsleep | selAgain | selFreeR | selFreeW
  deriving DecidableEq, Repr

/-- A task with the locals of its call. `seen` is a history variable, the queue length on entry
to the copy; `ubuf` holds the bytes that `copy_to_user` stored. -/
structure Task where
  call : Call
  pc : Pc
  state : TaskState
  signalled : Bool
  count : UInt64
  ret : ℤ
  mask : Events
  polling : Bool
  triggered : Bool
  ubuf : List UInt8
  seen : ℕ

def Task.goto (t : Task) (pc : Pc) : Task := {t with pc := pc}

/-- `ret = value; goto label;` -/
def Task.exit (t : Task) (value : ℤ) (pc : Pc) : Task := {t with pc := pc, ret := value}

/-- The wake function of a wait-queue entry: `default_wake_function` makes the sleeper runnable,
and `pollwake` also records the event in `triggered`, which only pollers read. -/
def Task.wakeFunction (t : Task) : Task := {t with state := .running, triggered := true}

/-- A signal becomes pending; an interruptible sleeper is made runnable. -/
def Task.signal (t : Task) : Task := {t with state := .running, signalled := true}

def entryPoint : Call → Pc
  | .read _ _ => .lock
  | .write _ _ _ => .lock
  | .ioctl _ => .ioctlSwitch
  | .poll _ => .pollLock

def Call.count : Call → UInt64
  | .read _ n => n
  | .write _ n _ => n
  | _ => 0

/-- A fresh frame for a call; only the pending signal is kept. -/
def Task.enter (t : Task) (c : Call) : Task where
  call := c
  pc := entryPoint c
  state := .running
  signalled := t.signalled
  count := c.count
  ret := 0
  mask := ⟨false,false⟩
  polling := false
  triggered := false
  ubuf := []
  seen := 0

/-- What the environment decides at a step: whether a user copy faults, after how many bytes, and
whether the rest of the destination is zeroed, and whether a poller gives up waiting. -/
inductive Choice
  | done
  | fault (copied : ℕ) (zeroed : Bool)
  | giveUp
  deriving DecidableEq, Repr

abbrev Transfer := BoundedQueue.Transfer UInt8

/-- The effect of one statement on what tasks share. -/
inductive Effect
  | none
  | mutexLock
  | mutexUnlock
  | addWaitQueue (q : Side)
  | removeWaitQueue (q : Side)
  | store (mem : ℕ → UInt8)
  | setLen (len : UInt32) (transfer : Transfer)
  | wakeUp (q : Side)
  | killFasync

/-- The whole system. `log` and `sigio` are history variables: the completed transfers in mutex
order, and the files notified by each call of `kill_fasync`. -/
structure Sys where
  dev : GlobalfifoDev
  task : Pid → Task
  owner : FileId → Option Pid
  log : List Transfer
  sigio : List (List FileId)

def Sys.setTask (s : Sys) (p : Pid) (t : Task) : Sys :=
  {s with task := Function.update s.task p t}

end ExampleKernel.GlobalFifo
