import ExampleKernel.GlobalFifo.Device

/-! The file operations of globalfifo, one statement at a time, and the interleaved system. An
operation maps the device and its own frame to its next frame and one effect on shared state;
`none` means that the statement cannot be executed now (a held mutex, a sleeper not woken). -/
namespace ExampleKernel.GlobalFifo
open ExampleKernel.Foundation ExampleKernel.Kernel

/-- `memmove` inside the array, from offset `src` to offset 0. -/
def memmove (mem : ℕ → UInt8) (src n : ℕ) : ℕ → UInt8 := blit mem 0 n fun i => mem (src+i)

def mutexLock (dev : GlobalfifoDev) (t : Task) (next : Pc) : Option (Task × Effect) :=
  if dev.mutex = none then some (t.goto next,.mutexLock) else none

/-- `schedule()`: a task that is runnable or has a pending signal goes on at once. -/
def enterSchedule (t : Task) (next blocked : Pc) : Option (Task × Effect) :=
  if t.state = .running ∨ t.signalled then some ({t with pc := next, state := .running},.none)
  else some (t.goto blocked,.none)

/-- Inside `schedule()` a task goes on only after a wake-up. -/
def leaveSchedule (t : Task) (next : Pc) : Option (Task × Effect) :=
  if t.state = .running then some (t.goto next,.none) else none

/-- Room left for a write, in 32-bit unsigned arithmetic. -/
def room (len : UInt32) : UInt64 := (globalfifoSize-len).toUInt64

def globalfifoRead (nonblock : Bool) (dev : GlobalfifoDev) (t : Task) (c : Choice) :
    Option (Task × Effect) :=
  match t.pc with
  | .lock => mutexLock dev t .addWait
  | .addWait => some (t.goto .test,.addWaitQueue .r)
  | .test =>
    if dev.currentLen = 0 then
      if nonblock then some (t.exit (-eagain) .out,.none) else some (t.goto .sleep,.none)
    else some (t.goto .clamp,.none)
  | .sleep => some ({t with pc := .unlock, state := .interruptible},.none)
  | .unlock => some (t.goto .schedule,.mutexUnlock)
  | .schedule => enterSchedule t .resume .asleep
  | .asleep => leaveSchedule t .resume
  | .resume =>
    if t.signalled then some (t.exit (-erestartsys) .removeWait,.none) else some (t.goto .relock,.none)
  | .relock => mutexLock dev t .test
  | .clamp => some ({t with pc := .copy, count := clampTo t.count dev.currentLen.toUInt64},.none)
  | .copy =>
    match c with
    | .fault k _ =>
      if k < t.count.toNat then
        some ({t with pc := .out, ret := -efault, ubuf := slice dev.mem 0 k},.none)
      else none
    | _ =>
      some ({t with
        pc := .shift, ubuf := slice dev.mem 0 t.count.toNat, seen := dev.currentLen.toNat},.none)
  | .shift =>
    some (t.goto .account,
      .store (memmove dev.mem t.count.toNat (dev.currentLen.toUInt64-t.count).toNat))
  | .account =>
    some (t.goto .wake,.setLen (dev.currentLen.toUInt64-t.count).toUInt32 (.get t.ubuf))
  | .wake => some (t.exit (intOf t.count.toNat) .out,.wakeUp .w)
  | .out => some (t.goto .removeWait,.mutexUnlock)
  | .removeWait => some (t.goto .setRunning,.removeWaitQueue .r)
  | .setRunning => some ({t with pc := .ret, state := .running},.none)
  | .ret => some (t.goto .idle,.none)
  | _ => none

def globalfifoWrite (nonblock : Bool) (buf : ℕ → UInt8) (dev : GlobalfifoDev) (t : Task)
    (c : Choice) : Option (Task × Effect) :=
  match t.pc with
  | .lock => mutexLock dev t .addWait
  | .addWait => some (t.goto .test,.addWaitQueue .w)
  | .test =>
    if dev.currentLen = globalfifoSize then
      if nonblock then some (t.exit (-eagain) .out,.none) else some (t.goto .sleep,.none)
    else some (t.goto .clamp,.none)
  | .sleep => some ({t with pc := .unlock, state := .interruptible},.none)
  | .unlock => some (t.goto .schedule,.mutexUnlock)
  | .schedule => enterSchedule t .resume .asleep
  | .asleep => leaveSchedule t .resume
  | .resume =>
    if t.signalled then some (t.exit (-erestartsys) .removeWait,.none) else some (t.goto .relock,.none)
  | .relock => mutexLock dev t .test
  | .clamp => some ({t with pc := .copy, count := clampTo t.count (room dev.currentLen)},.none)
  | .copy =>
    match c with
    | .fault k zeroed =>
      if k < t.count.toNat then
        some (t.exit (-efault) .out,
          .store (copyFromUserFault dev.mem dev.currentLen.toNat t.count.toNat k buf zeroed))
      else none
    | _ =>
      some ({t with pc := .account, seen := dev.currentLen.toNat},
        .store (blit dev.mem dev.currentLen.toNat t.count.toNat buf))
  | .account =>
    some (t.goto .wake,
      .setLen (dev.currentLen.toUInt64+t.count).toUInt32 (.put (slice buf 0 t.count.toNat)))
  | .wake => some (t.goto .sigio,.wakeUp .r)
  | .sigio =>
    some (t.exit (intOf t.count.toNat) .out, if dev.asyncQueue = [] then .none else .killFasync)
  | .out => some (t.goto .removeWait,.mutexUnlock)
  | .removeWait => some (t.goto .setRunning,.removeWaitQueue .w)
  | .setRunning => some ({t with pc := .ret, state := .running},.none)
  | .ret => some (t.goto .idle,.none)
  | _ => none

def globalfifoIoctl (cmd : UInt32) (dev : GlobalfifoDev) (t : Task) : Option (Task × Effect) :=
  match t.pc with
  | .ioctlSwitch =>
    if cmd = fifoClear then some (t.goto .ioctlLock,.none) else some (t.exit (-einval) .ret,.none)
  | .ioctlLock => mutexLock dev t .ioctlClear
  | .ioctlClear => some (t.goto .ioctlMemset,.setLen 0 .clear)
  | .ioctlMemset => some (t.goto .ioctlUnlock,.store (blit dev.mem 0 globalfifoSize.toNat fun _ => 0))
  | .ioctlUnlock => some (t.exit 0 .ret,.mutexUnlock)
  | .ret => some (t.goto .idle,.none)
  | _ => none

/-- `poll_wait` adds an entry only while the poll table still collects queues (first pass). -/
def pollWait (t : Task) (q : Side) (next : Pc) : Option (Task × Effect) :=
  some (t.goto next, if t.polling then .none else .addWaitQueue q)

def globalfifoPoll (dev : GlobalfifoDev) (t : Task) : Option (Task × Effect) :=
  match t.pc with
  | .pollLock => mutexLock dev t .pollWaitR
  | .pollWaitR => pollWait t .r .pollWaitW
  | .pollWaitW => pollWait t .w .pollTestR
  | .pollTestR => some ({t with pc := .pollTestW, mask := ⟨dev.currentLen ≠ 0,false⟩},.none)
  | .pollTestW =>
    some ({t with
      pc := .pollUnlock, mask := ⟨t.mask.pollin,dev.currentLen ≠ globalfifoSize⟩},.none)
  | .pollUnlock => some (t.goto .pollRet,.mutexUnlock)
  | _ => none

/-- The poll core around `globalfifo_poll`: after the first pass the table collects no more
queues; without a wanted event the caller sleeps unless an entry has been triggered since. -/
def doPoll (events : Events) (dev : GlobalfifoDev) (t : Task) (c : Choice) : Option (Task × Effect) :=
  match t.pc with
  | .pollRet => some ({t with pc := .selCheck, polling := true},.none)
  | .selCheck =>
    if (t.mask.pollin && events.pollin) || (t.mask.pollout && events.pollout) || c = .giveUp then
      some (t.goto .selFreeR,.none)
    else some (t.goto .selSleep,.none)
  | .selSleep => some ({t with pc := .selSchedule, state := .interruptible},.none)
  | .selSchedule =>
    if t.triggered then some ({t with pc := .selAgain, state := .running},.none)
    else enterSchedule t .selAgain .selAsleep
  | .selAsleep => leaveSchedule t .selAgain
  | .selAgain => some ({t with pc := .pollLock, triggered := false},.none)
  | .selFreeR => some (t.goto .selFreeW,.removeWaitQueue .r)
  | .selFreeW => some (t.goto .idle,.removeWaitQueue .w)
  | _ => globalfifoPoll dev t

/-- The next statement of a task, whichever call it is in. -/
def statement (dev : GlobalfifoDev) (t : Task) (c : Choice) : Option (Task × Effect) :=
  match t.call with
  | .read nonblock _ => globalfifoRead nonblock dev t c
  | .write nonblock _ buf => globalfifoWrite nonblock buf dev t c
  | .ioctl cmd => globalfifoIoctl cmd dev t
  | .poll events => doPoll events dev t c

def Effect.apply (p : Pid) (s : Sys) : Effect → Sys
  | .none => s
  | .mutexLock => {s with dev := {s.dev with mutex := some p}}
  | .mutexUnlock => {s with dev := {s.dev with mutex := Option.none}}
  | .addWaitQueue q =>
    {s with dev := {s.dev with wait := Function.update s.dev.wait q (p :: s.dev.wait q)}}
  | .removeWaitQueue q =>
    {s with dev := {s.dev with wait := Function.update s.dev.wait q ((s.dev.wait q).erase p)}}
  | .store mem => {s with dev := {s.dev with mem := mem}}
  | .setLen len transfer =>
    {s with dev := {s.dev with currentLen := len}, log := s.log ++ [transfer]}
  | .wakeUp q =>
    {s with task := fun r => if r ∈ s.dev.wait q then (s.task r).wakeFunction else s.task r}
  | .killFasync =>
    {s with
      task := fun r => if s.dev.asyncQueue.any (s.owner · = some r) then (s.task r).signal else s.task r
      sigio := s.sigio ++ [s.dev.asyncQueue]}

/-- `fasync_helper`: enter the file once, or take it off the list. -/
def fasyncHelper (file : FileId) (mode : Bool) (queue : List FileId) : List FileId :=
  if mode then (if file ∈ queue then queue else file :: queue) else queue.erase file

def globalfifoFasync (file : FileId) (mode : Bool) (dev : GlobalfifoDev) : GlobalfifoDev :=
  {dev with asyncQueue := fasyncHelper file mode dev.asyncQueue}

def globalfifoRelease (file : FileId) (dev : GlobalfifoDev) : GlobalfifoDev :=
  globalfifoFasync file false dev

/-- One event of an interleaved run. -/
inductive Act
  | call (p : Pid) (c : Call)
  | run (p : Pid) (c : Choice)
  | signal (p : Pid)
  | handleSignal (p : Pid)
  | timeout (p : Pid)
  | setOwner (file : FileId) (p : Pid)
  | fasync (file : FileId) (mode : Bool)
  | release (file : FileId)

def step (s : Sys) : Act → Option Sys
  | .call p c => if (s.task p).pc = .idle then some (s.setTask p ((s.task p).enter c)) else none
  | .run p c => (statement s.dev (s.task p) c).map fun r => r.2.apply p (s.setTask p r.1)
  | .signal p => some (s.setTask p (s.task p).signal)
  | .handleSignal p =>
    if (s.task p).pc = .idle then some (s.setTask p {s.task p with signalled := false}) else none
  | .timeout p =>
    if (s.task p).pc = .selAsleep then some (s.setTask p {s.task p with state := .running}) else none
  | .setOwner file p => some {s with owner := Function.update s.owner file (some p)}
  | .fasync file mode => some {s with dev := globalfifoFasync file mode s.dev}
  | .release file => some {s with dev := globalfifoRelease file s.dev}

/-- A task outside the driver. -/
def Task.rest : Task where
  call := .ioctl 0
  pc := .idle
  state := .running
  signalled := false
  count := 0
  ret := 0
  mask := ⟨false,false⟩
  polling := false
  triggered := false
  ubuf := []
  seen := 0

/-- The device as `globalfifo_init` allocates it with `kzalloc`, and no call in progress. -/
def load : Sys where
  dev := ⟨0,fun _ => 0,none,fun _ => [],[]⟩
  task := fun _ => Task.rest
  owner := fun _ => none
  log := []
  sigio := []

/-- `s` is reached from the loaded module by some interleaving of calls and events. -/
def Reached (acts : List Act) (s : Sys) : Prop := run step load acts = some s

end ExampleKernel.GlobalFifo
