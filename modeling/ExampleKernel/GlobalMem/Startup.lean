import ExampleKernel.GlobalFifo.Startup
import ExampleKernel.GlobalMem.Load
import ExampleKernel.GlobalMem.Statements
import ExampleKernel.GlobalMem.Threads
import ExampleKernel.GlobalMem.Waiters

/-! `globalmem_init` side by side with what it has started: the kernel threads from their first wake-up
on, interrupts from `request_irq` on, and file operations from `cdev_add` on. -/
namespace ExampleKernel.GlobalMem.Startup
open ExampleKernel.Foundation ExampleKernel.Kernel

inductive Object
  | waitQueueExit | dataReadComplete | workqueue | tasklet
  | lock (l : Threads.Lock)
  | devMutex | waitQueueGlobalmemData
  deriving DecidableEq, Repr

inductive Entry
  | kthread (t : Load.Kthread)
  | irq | sysfs | fops
  deriving DecidableEq, Repr

open Threads.Lock Threads.Stmt Load.Kthread

/-- What a call of `globalmem_init` initialises or publishes. -/
def initStep : Load.KernelCall → InitStep Object Entry
  | .sysfsCreateFile => .publish .sysfs
  | .initWaitqueueHead => .init .waitQueueExit
  | .initCompletion => .init .dataReadComplete
  | .wakeUpProcess t | .kthreadRun t => .publish (.kthread t)
  | .requestIrq => .publish .irq
  | .initWork => .init .workqueue
  | .taskletInit => .init .tasklet
  | .mutexInit => .init (.lock globalmemMutex)
  | .spinLockInit => .init (.lock globalmemSpinlock)
  | .rwlockInit => .init (.lock globalmemRwlock)
  | .cdevAdd => .publish .fops
  | .devMutexInit => .init .devMutex
  | _ => .call

/-- Program points of `irq_handler`, each before the statement it is named after. -/
inductive HandlerPc
  | idle | scheduleWork | taskletSchedule | sendSignal
  deriving DecidableEq, Repr

/-- The waiting threads share `completion_flag` and the completion with the reads, so that these are
taken from `machine`. `completionWaiter` tells whether `wait_function2` is in the queue of the completion. -/
structure Sys where
  threads : Threads.State
  waiters : Waiters.State
  completionWaiter : Bool
  machine : Concurrent.Machine
  handler : HandlerPc
  workQueued : Bool
  taskletScheduled : Bool

/-- `sysfs` is the wake-up in `sysfs_show` or `sysfs_store`; the interrupt that `sysfs_show` raises is an
`irq` like any other. -/
inductive Act
  | thread (i : Threads.Thread)
  | wait
  | wait2
  | irq
  | handler
  | work
  | tasklet
  | sysfs
  | poll
  | file (a : Concurrent.Act)

def Sys.view (s : Sys) : Waiters.State :=
  {s.waiters with completionFlag := s.machine.g.completionFlag, done := s.machine.g.dataReadComplete}

def Sys.store (s : Sys) (w : Waiters.State) : Sys :=
  {s with
    waiters := w
    machine := {s.machine with
      g := {s.machine.g with completionFlag := w.completionFlag, dataReadComplete := w.done}}}

/-- A step of `wait_function2`, or its entry into the queue of the completion. -/
def waitFunction2 (s : Sys) : Option Sys :=
  match Waiters.waitFunction2 s.view with
  | some w => some {s.store w with completionWaiter := false}
  | none => if s.waiters.wait2 = .waitForCompletion then some {s with completionWaiter := true} else none

def irqHandler (s : Sys) : Option Sys :=
  match s.handler with
  | .idle => none
  | .scheduleWork => some {s with workQueued := true, handler := .taskletSchedule}
  | .taskletSchedule => some {s with taskletScheduled := true, handler := .sendSignal}
  | .sendSignal => some {s with handler := .idle}

def step (s : Sys) : Act → Option Sys
  | .thread i => (Threads.exec s.threads i).map fun t => {s with threads := t}
  | .wait => (Waiters.waitFunction s.view).map s.store
  | .wait2 => waitFunction2 s
  | .irq => if s.handler = .idle then some {s with handler := .scheduleWork} else none
  | .handler => irqHandler s
  | .work => if s.workQueued then some {s with workQueued := false} else none
  | .tasklet => if s.taskletScheduled then some {s with taskletScheduled := false} else none
  | .sysfs | .poll => some s
  | .file a => (Concurrent.step s.machine a).map fun m => {s with machine := m}

def Act.entry : Act → Option Entry
  | .thread .one => some (.kthread globalmemThread)
  | .thread .two => some (.kthread globalmemThread2)
  | .wait => some (.kthread waitThread)
  | .wait2 => some (.kthread waitThread2)
  | .irq => some .irq
  | .sysfs => some .sysfs
  | .poll | .file _ => some .fops
  | .handler | .work | .tasklet => none

def threadUses : Threads.Stmt → List Object
  | lock l | unlock l => [.lock l]
  | readLock | readUnlock => [.lock globalmemRwlock]
  | _ => []

/-- The mutex of the device, and the completion that a read notifies. -/
def fileUses : Concurrent.Pc → List Object
  | .lock | .unlock => [.devMutex]
  | .test | .complete => [.dataReadComplete]
  | _ => []

/-- `read_seqbegin` and `read_seqretry` read the seqlock and lock nothing. -/
def Act.uses (s : Sys) : Act → List Object
  | .thread i => (s.threads.stmt i).elim [] threadUses
  | .wait =>
    match s.waiters.wait with
    | .prepareToWait | .condition | .schedule => [.waitQueueExit]
    | _ => []
  | .wait2 => if s.waiters.wait2 = .waitForCompletion then [.dataReadComplete] else []
  | .handler =>
    match s.handler with
    | .scheduleWork => [.workqueue]
    | .taskletSchedule => [.tasklet]
    | _ => []
  | .work => [.workqueue]
  | .tasklet => if s.taskletScheduled then [.tasklet] else []
  | .sysfs | .poll => [.waitQueueGlobalmemData]
  | .file (.run p _) => fileUses (s.machine.task p).pc
  | .irq | .file (.call _ _) => []

def initObject (s : Sys) : Object → Sys
  | .waitQueueExit => {s with waiters := {s.waiters with queued := false}}
  | .dataReadComplete =>
    {s with
      completionWaiter := false
      machine := {s.machine with g := {s.machine.g with dataReadComplete := 0}}}
  | .workqueue => {s with workQueued := false}
  | .tasklet => {s with taskletScheduled := false}
  | .lock l =>
    {s with threads := {s.threads with
      holder := Function.update s.threads.holder l none
      readers := if l = globalmemRwlock then [] else s.threads.readers}}
  | .devMutex => {s with machine := {s.machine with mutex := none}}
  | .waitQueueGlobalmemData => s

/-- No step of init initialises `wait_queue_globalmem_data`. -/
def Sys.busy (s : Sys) : Object → Prop
  | .waitQueueExit => s.waiters.queued = true
  | .dataReadComplete => s.completionWaiter = true
  | .workqueue => s.workQueued = true
  | .tasklet => s.taskletScheduled = true
  | .lock l => s.threads.holder l ≠ none ∨ l = globalmemRwlock ∧ s.threads.readers ≠ []
  | .devMutex => s.machine.mutex ≠ none
  | .waitQueueGlobalmemData => False

/-- `DECLARE_WORK` and `DECLARE_WAIT_QUEUE_HEAD`. The seqlock is not initialised at all. -/
def initialisedStatically : Object → Bool
  | .workqueue | .waitQueueGlobalmemData => true
  | _ => false

def startup : Startup Sys Act Object Entry where
  steps := Load.globalmemInit.map fun r => initStep r.call
  static := initialisedStatically
  act := step
  entry := Act.entry
  uses := Act.uses
  reset o s := initObject s o
  busy := Sys.busy

/-- A position inside the device. -/
def locks : Concurrent.Call → Bool
  | .read _ ppos | .write _ ppos _ => unsignedLong 64 ppos < globalmemSize
  | .ioctl _ => false

/-- A thread enters its round of locks after `rwlock_init`, and the seqlock never; interrupts come after
`tasklet_init`, reads and writes inside the device after the last `mutex_init`. -/
def Act.needs (s : Sys) : Act → List (InitStep Object Entry)
  | .thread i =>
    match s.threads.stmt i with
    | some (lock globalmemMutex) => [.init (.lock globalmemRwlock)]
    | some (lock globalmemSeqLock) => [.init (.lock globalmemSeqLock)]
    | _ => []
  | .irq => [.init .tasklet]
  | .file (.call _ c) => if locks c then [.init .devMutex] else []
  | _ => []

/-- A thread has entered its round of locks. -/
def inside (th : Threads.State) (i : Threads.Thread) : Prop := 2 ≤ th.pc i ∧ th.pc i < i.program.length

/-- A read or write that has the mutex of the device before it, or holds it. -/
def transfers (t : Concurrent.Task) : Bool :=
  match t.pc with
  | .enter => unsignedLong 64 t.ppos < globalmemSize
  | .lock | .copy | .zero | .advance | .unlock => true
  | _ => false

/-- A thread inside its round, and a lock that it has taken there, rely on the last of the locks of the
round, a thread in the section of the seqlock on this, and a lock that is taken on itself. -/
def threadsRely (th : Threads.State) (x : InitStep Object Entry) : Prop :=
  ((∃ i, inside th i) ∨ ∃ l, l ≠ globalmemSeqLock ∧ th.holder l ≠ none) ∧ x = .init (.lock globalmemRwlock) ∨
  (∃ i, th.held i = some globalmemSeqLock ∧ x = .init (.lock globalmemSeqLock)) ∨
  ∃ l, (th.holder l ≠ none ∨ l = globalmemRwlock ∧ th.readers ≠ []) ∧ x = .init (.lock l)

/-- An interrupt that is not through relies on the tasklet, and what it has queued does. -/
def irqRely (s : Sys) (x : InitStep Object Entry) : Prop :=
  (s.handler ≠ .idle ∨ s.workQueued = true ∨ s.taskletScheduled = true) ∧ x = .init .tasklet ∨
    s.workQueued = true ∧ x = .init .workqueue

def waitersRely (s : Sys) (x : InitStep Object Entry) : Prop :=
  s.waiters.queued = true ∧ x = .init .waitQueueExit ∨ s.completionWaiter = true ∧ x = .init .dataReadComplete

def filesRely (m : Concurrent.Machine) (x : InitStep Object Entry) : Prop :=
  ((∃ p, transfers (m.task p) = true) ∨ m.mutex ≠ none) ∧ x = .init .devMutex

def Sys.pending (s : Sys) (x : InitStep Object Entry) : Prop :=
  threadsRely s.threads x ∨ irqRely s x ∨ waitersRely s x ∨ filesRely s.machine x

section Pending
variable {s : Sys} {x : InitStep Object Entry}

theorem pending_of_threads (h : threadsRely s.threads x) : s.pending x := .inl h

theorem pending_of_irq (h : irqRely s x) : s.pending x := .inr (.inl h)

theorem pending_of_waiters (h : waitersRely s x) : s.pending x := .inr (.inr (.inl h))

theorem pending_of_files (h : filesRely s.machine x) : s.pending x := .inr (.inr (.inr h))

end Pending

theorem pending_of_busy {s : Sys} {o : Object} (h : s.busy o) : s.pending (.init o) := by
  cases o with
  | waitQueueExit => exact pending_of_waiters (.inl ⟨h,rfl⟩)
  | dataReadComplete => exact pending_of_waiters (.inr ⟨h,rfl⟩)
  | workqueue => exact pending_of_irq (.inr ⟨h,rfl⟩)
  | tasklet => exact pending_of_irq (.inl ⟨.inr (.inr h),rfl⟩)
  | lock l => exact pending_of_threads (.inr (.inr ⟨l,h,rfl⟩))
  | devMutex => exact pending_of_files ⟨.inr h,rfl⟩
  | waitQueueGlobalmemData => cases h

theorem relies_iff {s : Sys} {x : InitStep Object Entry} : startup.Relies Sys.pending s x ↔ s.pending x := by
  constructor
  · rintro (h | ⟨o,rfl,h⟩)
    · exact h
    · exact pending_of_busy h
  · exact .inl

theorem threadsRely_initLock {th : Threads.State} {l : Threads.Lock} {x : InitStep Object Entry}
    (h : threadsRely {th with
      holder := Function.update th.holder l none
      readers := if l = globalmemRwlock then [] else th.readers} x) : threadsRely th x := by
  obtain ⟨h | ⟨l',hseq,h⟩,rfl⟩ | h | ⟨l',h,rfl⟩ := h
  · exact .inl ⟨.inl h,rfl⟩
  · refine .inl ⟨.inr ⟨l',hseq,?_⟩,rfl⟩
    by_cases hl : l' = l
    · subst hl; exact absurd (Function.update_self _ _ _) h
    · simpa [Function.update_of_ne hl] using h
  · exact .inr (.inl h)
  · refine .inr (.inr ⟨l',?_,rfl⟩)
    by_cases hl : l' = l
    · subst hl
      obtain h | ⟨rfl,h⟩ := h
      · exact absurd (Function.update_self _ _ _) h
      · exact absurd rfl h
    · simp only [Function.update_of_ne hl] at h
      obtain h | ⟨rfl,h⟩ := h
      · exact .inl h
      · exact .inr ⟨rfl,by simpa [Ne.symm hl] using h⟩

/-- What a step of init resets is relied on by nothing more afterwards. -/
theorem pending_initObject {s : Sys} {o : Object} {x : InitStep Object Entry} (h : (initObject s o).pending x) :
    s.pending x := by
  cases o with
  | lock l => exact h.imp_left threadsRely_initLock
  | waitQueueExit =>
    obtain h | h | (⟨h,-⟩ | h) | h := h
    · exact pending_of_threads h
    · exact pending_of_irq h
    · cases h
    · exact pending_of_waiters (.inr h)
    · exact pending_of_files h
  | dataReadComplete =>
    obtain h | h | (h | ⟨h,-⟩) | h := h
    · exact pending_of_threads h
    · exact pending_of_irq h
    · exact pending_of_waiters (.inl h)
    · cases h
    · exact pending_of_files h
  | workqueue =>
    obtain h | (⟨h | h | h,rfl⟩ | ⟨h,-⟩) | h := h
    · exact pending_of_threads h
    · exact pending_of_irq (.inl ⟨.inl h,rfl⟩)
    · cases h
    · exact pending_of_irq (.inl ⟨.inr (.inr h),rfl⟩)
    · cases h
    · exact .inr (.inr h)
  | tasklet =>
    obtain h | (⟨h | h | h,rfl⟩ | h) | h := h
    · exact pending_of_threads h
    · exact pending_of_irq (.inl ⟨.inl h,rfl⟩)
    · exact pending_of_irq (.inl ⟨.inr (.inl h),rfl⟩)
    · cases h
    · exact pending_of_irq (.inr h)
    · exact .inr (.inr h)
  | devMutex =>
    obtain h | h | h | ⟨h | h,rfl⟩ := h
    · exact pending_of_threads h
    · exact pending_of_irq h
    · exact pending_of_waiters h
    · exact pending_of_files ⟨.inl h,rfl⟩
    · exact absurd rfl h
  | waitQueueGlobalmemData => exact h

section Threads
variable {th th' : Threads.State} {i : Threads.Thread} {st : Threads.Stmt}

/-- A statement of a thread is its first, the first lock, or inside its round of locks. -/
theorem inside_of_stmt (h : th.stmt i = some st) (hfirst : st ≠ kthreadShouldStop)
    (hlock : st ≠ lock globalmemMutex) : inside th i := by
  have hlt := Threads.stmt_lt h
  refine ⟨?_,hlt⟩
  have hall : ∀ n, n < 2 → i.program[n]? = some kthreadShouldStop ∨ i.program[n]? = some (lock globalmemMutex) := by
    cases i <;> decide
  rw [Threads.State.stmt] at h
  by_contra hn
  obtain hst | hst := hall _ (Nat.lt_of_not_le hn)
  · exact hfirst (Option.some.inj (h.symm.trans hst))
  · exact hlock (Option.some.inj (h.symm.trans hst))

/-- What a statement takes it uses; what else is taken was taken before. -/
theorem taken_of_effect (h : Threads.effect th i st = some th') {l : Threads.Lock}
    (hl : th'.holder l ≠ none ∨ l = globalmemRwlock ∧ th'.readers ≠ []) :
    .lock l ∈ threadUses st ∨ th.holder l ≠ none ∨ l = globalmemRwlock ∧ th.readers ≠ [] := by
  cases st <;> simp only [Threads.effect, Option.ite_none_right_eq_some, Option.some.injEq] at h
  case lock l' =>
    obtain ⟨-,rfl⟩ := h
    by_cases hne : l = l'
    · rw [hne]; exact .inl (List.mem_singleton_self _)
    · right; simpa [Function.update_of_ne hne] using hl
  case unlock l' =>
    subst h
    by_cases hne : l = l'
    · rw [hne]; exact .inl (List.mem_singleton_self _)
    · right; simpa [Function.update_of_ne hne] using hl
  case readLock | readUnlock =>
    by_cases hne : l = globalmemRwlock
    · rw [hne]; exact .inl (List.mem_singleton_self _)
    · right; left
      obtain hl | ⟨rfl,-⟩ := hl
      · obtain ⟨-,rfl⟩ := h; exact hl
      · contradiction
  case readSeqbegin => obtain ⟨-,rfl⟩ := h; exact .inr hl
  all_goals subst h; exact .inr hl

theorem pc_of_kthreadShouldStop (h : th.stmt i = some kthreadShouldStop) : th.pc i = 0 := by
  have hlt := Threads.stmt_lt h
  have hall : ∀ n, n < i.program.length → i.program[n]? = some kthreadShouldStop → n = 0 := by
    cases i <;> decide
  exact hall _ hlt h

theorem inside_target (h : th.stmt i = some st) (hlock : st ≠ lock globalmemMutex)
    (ht : 2 ≤ Threads.target th i st ∧ Threads.target th i st < i.program.length) : inside th i := by
  by_cases hfirst : st = kthreadShouldStop
  · subst hfirst
    obtain ⟨hge,hlt⟩ := ht
    simp only [Threads.target, pc_of_kthreadShouldStop h] at hge hlt
    split_ifs at hge hlt <;> omega
  · exact inside_of_stmt h hfirst hlock

end Threads

theorem precedes_rwlock {l : Threads.Lock} (hl : l ≠ globalmemSeqLock) :
    startup.Precedes (.init (.lock l)) (.init (.lock globalmemRwlock)) := by
  cases l <;> first | contradiction | decide

section ThreadSteps
variable {s : Sys} {i : Threads.Thread} {st : Threads.Stmt}

/-- The first lock of a round is guarded, and the rest of it relies on the last one. -/
theorem covers_rwlock (h : s.threads.stmt i = some st) (hfirst : st ≠ kthreadShouldStop) :
    startup.Covers Act.needs Sys.pending s (.thread i) (.init (.lock globalmemRwlock)) := by
  by_cases hlock : st = lock globalmemMutex
  · exact Kernel.Startup.covers_of_needs (by simp [Act.needs, h, hlock])
  · have hinside := inside_of_stmt h hfirst hlock
    exact Kernel.Startup.covers_of_pending (pending_of_threads (.inl ⟨.inl ⟨i,hinside⟩,rfl⟩))

/-- The section of the seqlock is guarded at its start. -/
theorem covers_seqlock (h : s.threads.stmt i = some st)
    (hseq : st = lock globalmemSeqLock ∨ s.threads.held i = some globalmemSeqLock) :
    startup.Covers Act.needs Sys.pending s (.thread i) (.init (.lock globalmemSeqLock)) := by
  obtain rfl | hheld := hseq
  · exact Kernel.Startup.covers_of_needs (by simp [Act.needs, h])
  · exact Kernel.Startup.covers_of_pending (pending_of_threads (.inr (.inl ⟨i,hheld,rfl⟩)))

theorem covers_of_threadUses (h : s.threads.stmt i = some st) {o : Object} (ho : o ∈ threadUses st) :
    startup.Covers Act.needs Sys.pending s (.thread i) (.init o) := by
  have hround : ∀ {l}, st ≠ kthreadShouldStop → l ≠ globalmemSeqLock →
      startup.Covers Act.needs Sys.pending s (.thread i) (.init (.lock l)) :=
    fun hfirst hl => (covers_rwlock h hfirst).of_precedes (precedes_rwlock hl)
  cases st <;> simp only [threadUses, List.mem_singleton, List.not_mem_nil] at ho
  case lock l =>
    subst ho
    by_cases hl : l = globalmemSeqLock
    · subst hl; exact covers_seqlock h (.inl rfl)
    · exact hround (by simp) hl
  case unlock l =>
    subst ho
    by_cases hl : l = globalmemSeqLock
    · subst hl
      have hb := Threads.bracketed_of_stmt h
      simp only [Threads.Thread.bracketed, Bool.and_eq_true, decide_eq_true_eq] at hb
      exact covers_seqlock h (.inr hb.1)
    · exact hround (by simp) hl
  all_goals subst ho; exact hround (by simp) (by simp)

theorem covers_thread {th : Threads.State} (h : Threads.exec s.threads i = some th) {x : InitStep Object Entry}
    (hx : threadsRely th x) : startup.Covers Act.needs Sys.pending s (.thread i) x := by
  simp only [Threads.exec, Option.bind_eq_some_iff, Option.map_eq_some_iff] at h
  obtain ⟨st,hst,u,hu,rfl⟩ := h
  have hpc := Threads.effect_pc hu
  obtain ⟨⟨j,hj⟩ | ⟨l,hseq,hl⟩,rfl⟩ | ⟨j,hj,rfl⟩ | ⟨l,hl,rfl⟩ := hx
  · by_cases hlock : st = lock globalmemMutex
    · subst hlock; exact covers_rwlock hst (by simp)
    · refine Kernel.Startup.covers_of_pending (pending_of_threads (.inl ⟨.inl ⟨j,?_⟩,rfl⟩))
      by_cases hji : j = i
      · subst hji
        simp only [inside, Threads.State.goto, Function.update_self] at hj
        exact inside_target hst hlock hj
      · simpa [inside, Threads.State.goto, Function.update_of_ne hji, hpc] using hj
  · by_cases hfirst : st = kthreadShouldStop
    · subst hfirst
      cases hu
      exact Kernel.Startup.covers_of_pending (pending_of_threads (.inl ⟨.inr ⟨l,hseq,hl⟩,rfl⟩))
    · exact covers_rwlock hst hfirst
  · by_cases hji : j = i
    · subst hji
      have htarget := Threads.held_target hst
      simp only [Threads.State.held, Threads.State.goto, Function.update_self] at hj
      rw [htarget] at hj
      apply covers_seqlock hst
      cases st with
      | lock l => exact .inl (congrArg lock (Option.some.inj hj))
      | unlock l => cases hj
      | _ => exact .inr hj
    · refine Kernel.Startup.covers_of_pending (pending_of_threads (.inr (.inl ⟨j,?_,rfl⟩)))
      simpa [Threads.State.held, Threads.State.goto, Function.update_of_ne hji, hpc] using hj
  · obtain huses | hold := taken_of_effect hu hl
    · exact covers_of_threadUses hst huses
    · exact Kernel.Startup.covers_of_pending (pending_of_threads (.inr (.inr ⟨l,hold,rfl⟩)))

end ThreadSteps

section Steps
variable {s t : Sys} {x : InitStep Object Entry}

/-- What a waiting thread queues itself on was initialised before the thread was woken. -/
theorem covers_of_published {a : Act} {e : Entry} (he : a.entry = some e) {o : Object}
    (ho : startup.Precedes (.init o) (.publish e)) : startup.Covers Act.needs Sys.pending s a (.init o) :=
  (Kernel.Startup.covers_of_entry (P := startup) he).of_precedes ho

theorem covers_wait (h : step s .wait = some t) (hx : t.pending x) :
    startup.Covers Act.needs Sys.pending s .wait x := by
  simp only [step, Option.map_eq_some_iff] at h
  obtain ⟨w,-,rfl⟩ := h
  obtain h | h | (⟨-,rfl⟩ | h) | h := hx
  · exact Kernel.Startup.covers_of_pending (pending_of_threads h)
  · exact Kernel.Startup.covers_of_pending (pending_of_irq h)
  · exact covers_of_published rfl (by decide)
  · exact Kernel.Startup.covers_of_pending (pending_of_waiters (.inr h))
  · exact Kernel.Startup.covers_of_pending (pending_of_files h)

theorem waitFunction2_queued {w w' : Waiters.State} (h : Waiters.waitFunction2 w = some w') : w'.queued = w.queued := by
  unfold Waiters.waitFunction2 at h
  split at h <;> grind

theorem covers_wait2 (h : step s .wait2 = some t) (hx : t.pending x) :
    startup.Covers Act.needs Sys.pending s .wait2 x := by
  have hframe : t.threads = s.threads ∧ t.waiters.queued = s.waiters.queued ∧
      (irqRely t x → irqRely s x) ∧ (filesRely t.machine x → filesRely s.machine x) := by
    simp only [step, waitFunction2] at h
    cases hw : Waiters.waitFunction2 s.view with
    | some w =>
      have hqueued := waitFunction2_queued hw
      rw [hw] at h
      cases h
      exact ⟨rfl,hqueued,id,id⟩
    | none =>
      simp only [hw, Option.ite_none_right_eq_some, Option.some.injEq] at h
      obtain ⟨-,rfl⟩ := h
      exact ⟨rfl,rfl,id,id⟩
  obtain ⟨hthreads,hqueued,hirq,hfiles⟩ := hframe
  obtain h | h | (⟨h,rfl⟩ | ⟨-,rfl⟩) | h := hx
  · exact Kernel.Startup.covers_of_pending (pending_of_threads (hthreads ▸ h))
  · exact Kernel.Startup.covers_of_pending (pending_of_irq (hirq h))
  · exact Kernel.Startup.covers_of_pending (pending_of_waiters (.inl ⟨hqueued.symm.trans h,rfl⟩))
  · exact covers_of_published rfl (by decide)
  · exact Kernel.Startup.covers_of_pending (pending_of_files (hfiles h))

theorem covers_irq (h : step s .irq = some t) (hx : t.pending x) :
    startup.Covers Act.needs Sys.pending s .irq x := by
  simp only [step, Option.ite_none_right_eq_some, Option.some.injEq] at h
  obtain ⟨-,rfl⟩ := h
  obtain h | (⟨-,rfl⟩ | h) | h := hx
  · exact Kernel.Startup.covers_of_pending (pending_of_threads h)
  · exact Kernel.Startup.covers_of_needs (List.mem_singleton_self _)
  · exact Kernel.Startup.covers_of_pending (pending_of_irq (.inr h))
  · exact Kernel.Startup.covers_of_pending (.inr (.inr h))

/-- The interrupt, the work item and the tasklet rely on the tasklet, which is initialised last. -/
theorem covers_irqRely {a : Act} (hold : s.handler ≠ .idle ∨ s.workQueued = true ∨ s.taskletScheduled = true)
    (hx : irqRely t x) : startup.Covers Act.needs Sys.pending s a x := by
  have htasklet : startup.Covers Act.needs Sys.pending s a (.init .tasklet) :=
    Kernel.Startup.covers_of_pending (pending_of_irq (.inl ⟨hold,rfl⟩))
  obtain ⟨-,rfl⟩ | ⟨-,rfl⟩ := hx
  · exact htasklet
  · exact htasklet.of_precedes (by decide)

theorem covers_deferred {a : Act} (ha : a = .handler ∨ a = .work ∨ a = .tasklet) (h : step s a = some t)
    (hx : t.pending x) : startup.Covers Act.needs Sys.pending s a x := by
  have hframe : t.threads = s.threads ∧ t.waiters = s.waiters ∧ t.completionWaiter = s.completionWaiter ∧
      t.machine = s.machine ∧ (s.handler ≠ .idle ∨ s.workQueued = true ∨ s.taskletScheduled = true) := by
    obtain rfl | rfl | rfl := ha
    · simp only [step, irqHandler] at h
      split at h <;> cases h <;> simp_all
    · simp only [step, Option.ite_none_right_eq_some, Option.some.injEq] at h
      obtain ⟨hq,rfl⟩ := h
      exact ⟨rfl,rfl,rfl,rfl,.inr (.inl hq)⟩
    · simp only [step, Option.ite_none_right_eq_some, Option.some.injEq] at h
      obtain ⟨hq,rfl⟩ := h
      exact ⟨rfl,rfl,rfl,rfl,.inr (.inr hq)⟩
  obtain ⟨hthreads,hwaiters,hcompletion,hmachine,hold⟩ := hframe
  obtain h | h | h | h := hx
  · exact Kernel.Startup.covers_of_pending (pending_of_threads (hthreads ▸ h))
  · exact covers_irqRely hold h
  · rw [waitersRely,hwaiters,hcompletion] at h
    exact Kernel.Startup.covers_of_pending (pending_of_waiters h)
  · exact Kernel.Startup.covers_of_pending (pending_of_files (hmachine ▸ h))

theorem transfers_ofCall (c : Concurrent.Call) (id : ℕ) : transfers (.ofCall c id) = locks c := by
  cases c <;> rfl

theorem transfers_statement {current : Pid} {g : Globalmem} {mutex : Option Pid} {t : Concurrent.Task}
    {n : Concurrent.Next} {c : Concurrent.Choice} (h : Concurrent.statement current g mutex t c = some n)
    (hn : transfers n.task = true) : transfers t = true := by
  obtain ⟨_,_,hcall,h⟩ | ⟨_,_,_,hcall,h⟩ | ⟨_,hcall,h⟩ := Concurrent.statement_move h
  all_goals cases h <;> simp_all [transfers]

/-- The mutex of the device is taken only by a task that had it before it. -/
theorem filesRely_statement {m : Concurrent.Machine} {p : Pid} {c : Concurrent.Choice} {n : Concurrent.Next}
    (hn : Concurrent.statement p m.g m.mutex (m.task p) c = some n)
    (h : (∃ q, transfers (Function.update m.task p n.task q) = true) ∨ n.mutex ≠ none) :
    (∃ q, transfers (m.task q) = true) ∨ m.mutex ≠ none := by
  obtain ⟨q,hq⟩ | hmutex := h
  · left
    by_cases hqp : q = p
    · subst hqp
      rw [Function.update_self] at hq
      exact ⟨q,transfers_statement hn hq⟩
    · rw [Function.update_of_ne hqp] at hq
      exact ⟨q,hq⟩
  · have hlock := (Concurrent.statement_obeys hn).lock
    by_cases hpc : (m.task p).pc = .lock
    · exact .inl ⟨p,by simp [transfers, hpc]⟩
    · right
      intro hnone
      rw [if_neg hpc] at hlock
      apply hmutex
      split_ifs at hlock
      · exact hlock
      · exact hlock.trans hnone

theorem covers_file {a : Concurrent.Act} (h : step s (.file a) = some t) (hx : t.pending x) :
    startup.Covers Act.needs Sys.pending s (.file a) x := by
  simp only [step, Option.map_eq_some_iff] at h
  obtain ⟨m,hm,rfl⟩ := h
  obtain h | h | h | ⟨h,rfl⟩ := hx
  · exact Kernel.Startup.covers_of_pending (pending_of_threads h)
  · exact Kernel.Startup.covers_of_pending (pending_of_irq h)
  · exact Kernel.Startup.covers_of_pending (pending_of_waiters h)
  · cases a with
    | call p c =>
      simp only [Concurrent.step, Option.ite_none_right_eq_some, Option.some.injEq] at hm
      obtain ⟨-,rfl⟩ := hm
      obtain ⟨q,hq⟩ | hmutex := h
      · by_cases hqp : q = p
        · subst hqp
          simp only [Function.update_self, transfers_ofCall] at hq
          exact Kernel.Startup.covers_of_needs (by simp [Act.needs, hq])
        · simp only [Function.update_of_ne hqp] at hq
          exact Kernel.Startup.covers_of_pending (pending_of_files ⟨.inl ⟨q,hq⟩,rfl⟩)
      · exact Kernel.Startup.covers_of_pending (pending_of_files ⟨.inr hmutex,rfl⟩)
    | run p c =>
      simp only [Concurrent.step, Option.map_eq_some_iff] at hm
      obtain ⟨n,hn,rfl⟩ := hm
      exact Kernel.Startup.covers_of_pending (pending_of_files ⟨filesRely_statement hn h,rfl⟩)

/-- Whatever comes to be relied on after a step was covered before it. -/
theorem covers_step {a : Act} (h : step s a = some t) (hx : t.pending x) :
    startup.Covers Act.needs Sys.pending s a x := by
  cases a with
  | thread i =>
    simp only [step, Option.map_eq_some_iff] at h
    obtain ⟨th,hth,rfl⟩ := h
    obtain hthread | hrest := hx
    · exact covers_thread hth hthread
    · exact Kernel.Startup.covers_of_pending (.inr hrest)
  | wait => exact covers_wait h hx
  | wait2 => exact covers_wait2 h hx
  | irq => exact covers_irq h hx
  | handler => exact covers_deferred (.inl rfl) h hx
  | work => exact covers_deferred (.inr (.inl rfl)) h hx
  | tasklet => exact covers_deferred (.inr (.inr rfl)) h hx
  | sysfs | poll => cases h; exact Kernel.Startup.covers_of_pending hx
  | file a => exact covers_file h hx

theorem covers_of_uses {a : Act} {o : Object} (ho : o ∈ a.uses s) :
    initialisedStatically o = true ∨ startup.Covers Act.needs Sys.pending s a (.init o) := by
  cases a with
  | thread i =>
    simp only [Act.uses] at ho
    cases hst : s.threads.stmt i with
    | none => rw [hst] at ho; cases ho
    | some st => rw [hst] at ho; exact .inr (covers_of_threadUses hst ho)
  | wait =>
    simp only [Act.uses] at ho
    split at ho <;> simp only [List.mem_singleton, List.not_mem_nil] at ho
    all_goals subst ho; exact .inr (covers_of_published rfl (by decide))
  | wait2 =>
    simp only [Act.uses] at ho
    split_ifs at ho <;> simp only [List.mem_singleton, List.not_mem_nil] at ho
    subst ho
    exact .inr (covers_of_published rfl (by decide))
  | handler =>
    simp only [Act.uses] at ho
    split at ho <;> simp only [List.mem_singleton, List.not_mem_nil] at ho
    · subst ho; exact .inl rfl
    · subst ho
      rename_i hpc
      have hbusy : s.handler ≠ .idle := by rw [hpc]; nofun
      exact .inr (Kernel.Startup.covers_of_pending (pending_of_irq (.inl ⟨.inl hbusy,rfl⟩)))
  | work => exact .inl (by rw [List.mem_singleton.mp ho]; rfl)
  | tasklet =>
    simp only [Act.uses] at ho
    split_ifs at ho with hq
    · rw [List.mem_singleton.mp ho]
      exact .inr (Kernel.Startup.covers_of_pending (pending_of_irq (.inl ⟨.inr (.inr hq),rfl⟩)))
    · cases ho
  | sysfs | poll => exact .inl (by rw [List.mem_singleton.mp ho]; rfl)
  | irq => cases ho
  | file a =>
    cases a with
    | call p c => cases ho
    | run p c =>
      right
      have hmutex : transfers (s.machine.task p) = true →
          startup.Covers Act.needs Sys.pending s (.file (.run p c)) (.init .devMutex) :=
        fun h => Kernel.Startup.covers_of_pending (pending_of_files ⟨.inl ⟨p,h⟩,rfl⟩)
      simp only [Act.uses, fileUses] at ho
      split at ho <;> simp only [List.mem_singleton, List.not_mem_nil] at ho
      · subst ho
        rename_i hpc
        exact hmutex (by simp [transfers, hpc])
      · subst ho
        rename_i hpc
        exact hmutex (by simp [transfers, hpc])
      all_goals subst ho; exact covers_of_published rfl (by decide)

end Steps

/-- The module as `globalmem_init` finds it. -/
def booting : Starting Sys where
  sys :=
    { threads := Threads.loaded
      waiters := Waiters.loaded
      completionWaiter := false
      machine := Concurrent.load
      handler := .idle
      workQueued := false
      taskletScheduled := false }
  done := 0

theorem not_pending_booting (x : InitStep Object Entry) : ¬ booting.sys.pending x := by
  rintro ((⟨⟨i,hi⟩ | ⟨l,-,h⟩,-⟩ | ⟨i,hi,-⟩ | ⟨l,h | ⟨-,h⟩,-⟩) | (⟨h | h | h,-⟩ | ⟨h,-⟩) |
    (⟨h,-⟩ | ⟨h,-⟩) | ⟨⟨p,hp⟩ | h,-⟩)
  · exact Nat.not_succ_le_zero 1 hi.1
  · exact h rfl
  · cases i <;> cases hi
  · exact h rfl
  · exact h rfl
  · exact h rfl
  · cases h
  · cases h
  · cases h
  · cases h
  · cases h
  · cases hp
  · exact h rfl

theorem guarding : startup.Guarding Act.needs Sys.pending booting.sys := by
  refine ⟨by decide,?_,?_,?_,?_⟩
  · intro s a t h x hx
    exact covers_step h (relies_iff.mp hx)
  · intro s o x hx
    rw [relies_iff] at hx ⊢
    exact pending_initObject hx
  · intro s a o ho
    exact covers_of_uses ho
  · intro x hx
    exact not_pending_booting x (relies_iff.mp hx)

/-- When threads, interrupts and calls come only after the initialisations that each of them waits for,
nothing in globalmem and in globalfifo is used before it is initialised, or initialised while it is
held or queued. -/
theorem used_after_initialised (acts : List (StartupAct Act)) (fifoActs : List (StartupAct GlobalFifo.Act)) :
    (Meets startup.step (startup.Guarded Act.needs) booting acts →
      Meets startup.step startup.Sound booting acts) ∧
    (Meets GlobalFifo.startup.step (GlobalFifo.startup.Guarded GlobalFifo.Act.needs) GlobalFifo.booting fifoActs →
      Meets GlobalFifo.startup.step GlobalFifo.startup.Sound GlobalFifo.booting fifoActs) :=
  ⟨Kernel.Startup.sound_of_guarded guarding,Kernel.Startup.sound_of_guarded GlobalFifo.guarding⟩

/-- The threads start as soon as they are woken, an interrupt and a write come after the last step. -/
theorem used_after_initialised_interleaved :
    (∃ acts s, run startup.step booting acts = some s ∧ s.sys.taskletScheduled = true ∧
      Meets startup.step startup.Sound booting acts) ∧
    (∃ acts s, run GlobalFifo.startup.step GlobalFifo.booting acts = some s ∧ s.sys.dev.wait .w = [1] ∧
      Meets GlobalFifo.startup.step GlobalFifo.startup.Sound GlobalFifo.booting acts) := by
  constructor
  · let acts : List (StartupAct Act) :=
      List.flatten [List.replicate 11 .init,[.other .wait,.other .wait],List.replicate 7 .init,
        [.other (.thread .one)],List.replicate 13 .init,[.other (.thread .one),.other .irq,.other .handler,
          .other .handler,.other (.file (.call 1 (.read 1 0)))]]
    obtain ⟨s,hs,hp⟩ := exists_of_run_any startup.step booting acts (·.sys.taskletScheduled) (by decide)
    exact ⟨acts,s,hs,hp,(used_after_initialised acts []).1
      (meets_of_check (fun s a => decide (startup.Guarded Act.needs s a)) (fun _ _ h => of_decide_eq_true h)
        (by decide))⟩
  · let acts : List (StartupAct GlobalFifo.Act) :=
      List.flatten [List.replicate 4 .init,[.other (.call 1 (.write false 1 fun _ => 0))],
        List.replicate 3 .init,[.other (.run 1 .done),.other (.run 1 .done)]]
    obtain ⟨s,hs,hp⟩ := exists_of_run_any GlobalFifo.startup.step GlobalFifo.booting acts
      (fun s => s.sys.dev.wait .w = [1]) (by decide)
    exact ⟨acts,s,hs,of_decide_eq_true hp,(used_after_initialised [] acts).2
      (meets_of_check (fun s a => decide (GlobalFifo.startup.Guarded GlobalFifo.Act.needs s a))
        (fun _ _ h => of_decide_eq_true h) (by decide))⟩

/-- An interrupt right after `request_irq` queues the work item, which the next step initialises again; a
write right after `cdev_add` locks the mutex of globalfifo before it is initialised. -/
theorem used_before_initialised :
    (¬ ∀ acts s, run startup.step booting acts = some s → Meets startup.step startup.Sound booting acts) ∧
    (¬ ∀ acts s, run GlobalFifo.startup.step GlobalFifo.booting acts = some s →
      Meets GlobalFifo.startup.step GlobalFifo.startup.Sound GlobalFifo.booting acts) := by
  constructor
  · intro h
    let before : List (StartupAct Act) := List.replicate 15 .init ++ [.other .irq,.other .handler]
    obtain ⟨s,hs,hp⟩ := exists_of_run_any startup.step booting before
      (fun s => s.done = 15 ∧ s.sys.workQueued = true) (by decide)
    obtain ⟨t,ht,-⟩ := exists_of_run_any startup.step booting (before ++ [.init]) (fun _ => true) (by decide)
    obtain ⟨hdone,hqueued⟩ := of_decide_eq_true hp
    have hsound := (meets_of_append hs (h _ t ht)).1
    exact hsound .workqueue (by rw [hdone]; decide) hqueued
  · intro h
    let before : List (StartupAct GlobalFifo.Act) :=
      List.replicate 4 .init ++ [.other (.call 1 (.write false 1 fun _ => 0))]
    obtain ⟨s,hs,hp⟩ := exists_of_run_any GlobalFifo.startup.step GlobalFifo.booting before
      (fun s => s.done = 4 ∧ GlobalFifo.Object.mutex ∈ GlobalFifo.Act.uses s.sys (.run 1 .done)) (by decide)
    obtain ⟨t,ht,-⟩ := exists_of_run_any GlobalFifo.startup.step GlobalFifo.booting
      (before ++ [.other (.run 1 .done)]) (fun _ => true) (by decide)
    obtain ⟨hdone,huses⟩ := of_decide_eq_true hp
    have hsound := (meets_of_append hs (h _ t ht)).1
    have hready := hsound (by rw [hdone]; decide) .mutex huses
    rw [hdone] at hready
    exact absurd hready (by decide)

section Unguarded
variable {s : Sys} {n : ℕ} {i : Threads.Thread}

theorem step_other {t : Sys} {a : Act} (hlive : startup.Live n a) (h : step s a = some t) :
    startup.step ⟨s,n⟩ (.other a) = some ⟨t,n⟩ := by
  rw [Kernel.Startup.step,if_pos hlive]
  simp [startup, h]

theorem unsound_other {a : Act} {o : Object} (hlive : startup.Live n a) (ho : o ∈ a.uses s)
    (hstatic : initialisedStatically o = false) (hnot : ¬ startup.Reached n (.init o))
    (more : List (StartupAct Act)) : ¬ Meets startup.step startup.Sound ⟨s,n⟩ (.other a::more) := by
  intro hm
  obtain h | h := hm.1 hlive o ho
  · exact Bool.false_ne_true (hstatic.symm.trans h)
  · exact hnot h

/-- What both threads do between their first lock and their third. -/
def round : List Threads.Stmt :=
  [lock globalmemMutex,.load,.store,unlock globalmemMutex,lock globalmemSpinlock,.load,.store,unlock globalmemSpinlock]

theorem program_round (i : Threads.Thread) : ∀ k < 8, i.program[k+1]? = round[k]? := by
  cases i <;> decide

theorem exec_round {th : Threads.State} {k : ℕ} (hpc : th.pc i = k+1) (hk : k < 8)
    (hmutex : k = 0 → th.holder globalmemMutex = none) (hspin : k ≤ 4 → th.holder globalmemSpinlock = none) :
    ∃ th', Threads.exec th i = some th' ∧ th'.pc i = k+2 ∧ (k+1 ≤ 4 → th'.holder globalmemSpinlock = none) := by
  have hst : th.stmt i = round[k]? := by
    rw [Threads.State.stmt,hpc]
    exact program_round i k hk
  unfold Threads.exec
  interval_cases k <;>
    simp [hst, round, Threads.effect, Threads.target, Threads.State.goto, Threads.State.free, hpc, hmutex, hspin]

/-- A thread that has entered its round alone gets to the read-write lock. -/
theorem unsound_round (hlive : startup.Live n (.thread i))
    (hnot : ¬ startup.Reached n (.init (.lock globalmemRwlock))) {k m : ℕ} (hkm : k+m = 8)
    (hpc : s.threads.pc i = k+1) (hk : k ≠ 0) (hspin : k ≤ 4 → s.threads.holder globalmemSpinlock = none) :
    ∃ more, ¬ Meets startup.step startup.Sound ⟨s,n⟩ more := by
  induction m generalizing s k with
  | zero =>
    obtain rfl : k = 8 := hkm
    refine ⟨_,unsound_other (o := .lock globalmemRwlock) hlive ?_ rfl hnot []⟩
    have hst : s.threads.stmt i = i.program[9]? := by rw [Threads.State.stmt,hpc]
    rw [Act.uses,hst]
    cases i <;> decide
  | succ m ih =>
    obtain ⟨th,hth,hnext,hfree⟩ := exec_round hpc (by omega) (fun h => absurd h hk) hspin
    obtain ⟨more,hmore⟩ := ih (s := {s with threads := th}) (k := k+1) (by omega) hnext (by omega) hfree
    exact ⟨_,not_meets_cons (step_other hlive (by simp [step, hth])) hmore⟩

theorem unsound_thread (hbehind : startup.Behind Sys.pending ⟨s,n⟩) (hlive : startup.Live n (.thread i))
    {t : Sys} (h : step s (.thread i) = some t) (hst : s.threads.stmt i = some (lock globalmemMutex))
    (hnot : ¬ startup.Reached n (.init (.lock globalmemRwlock))) :
    ∃ more, ¬ Meets startup.step startup.Sound ⟨s,n⟩ (.other (.thread i)::more) := by
  have hfree : ∀ l, l ≠ globalmemSeqLock → s.threads.holder l = none := by
    intro l hl
    by_contra hn
    exact hnot (hbehind _ (relies_iff.mpr (.inl (.inl ⟨.inr ⟨l,hl,hn⟩,rfl⟩))))
  have hpc : s.threads.pc i = 0+1 := by
    have hall : ∀ k, k < i.program.length → i.program[k]? = some (lock globalmemMutex) → k = 1 := by
      cases i <;> decide
    exact hall _ (Threads.stmt_lt hst) hst
  obtain ⟨th,hth,hnext,hspin⟩ :=
    exec_round hpc (by decide) (fun _ => hfree _ nofun) (fun _ => hfree _ nofun)
  obtain ⟨more,hmore⟩ := unsound_round (s := {s with threads := th}) (k := 1) (m := 7) hlive hnot rfl hnext
    (by decide) hspin
  exact ⟨more,not_meets_cons (step_other hlive (by simp [step, hth])) hmore⟩

/-- An interrupt goes on to schedule the tasklet. -/
theorem unsound_irq (hlive : startup.Live n .irq) (hidle : s.handler = .idle)
    (hnot : ¬ startup.Reached n (.init .tasklet)) :
    ¬ Meets startup.step startup.Sound ⟨s,n⟩ [.other .irq,.other .handler,.other .handler] := by
  have hhandler : startup.Live n .handler := nofun
  apply not_meets_cons (step_other hlive (by simp [step, hidle]; rfl))
  apply not_meets_cons (step_other hhandler (by simp [step, irqHandler]; rfl))
  exact unsound_other (o := .tasklet) hhandler (List.mem_singleton_self _) rfl hnot []

theorem enter_statement {c : Concurrent.Call} (hlocks : locks c = true) (id : ℕ) (p : Pid) (g : Globalmem)
    (mutex : Option Pid) : ∃ r, Concurrent.statement p g mutex (.ofCall c id) .go = some r ∧ r.task.pc = .lock := by
  cases c with
  | ioctl cmd => cases hlocks
  | read size ppos | write size ppos buf =>
    have hin : ¬ unsignedLong 64 ppos ≥ globalmemSize := Nat.not_le_of_lt (of_decide_eq_true hlocks)
    refine ⟨_,rfl,?_⟩
    simp [Concurrent.enter, Concurrent.Task.ofCall, hin]

/-- A read or write inside the device goes on to lock its mutex. -/
theorem unsound_call {p : Pid} {c : Concurrent.Call} (hlive : startup.Live n (.file (.call p c)))
    (hidle : (s.machine.task p).pc = .idle) (hlocks : locks c = true)
    (hnot : ¬ startup.Reached n (.init .devMutex)) :
    ¬ Meets startup.step startup.Sound ⟨s,n⟩
      [.other (.file (.call p c)),.other (.file (.run p .go)),.other (.file (.run p .go))] := by
  let m : Concurrent.Machine := {s.machine with
    task := Function.update s.machine.task p (.ofCall c s.machine.book.clock)
    book := s.machine.book.tick}
  have hcall : step s (.file (.call p c)) = some {s with machine := m} := by
    simp only [step, Concurrent.step, if_pos hidle]
    rfl
  have htask : m.task p = .ofCall c s.machine.book.clock := Function.update_self _ _ _
  obtain ⟨r,hr,hpc⟩ := enter_statement hlocks s.machine.book.clock p m.g m.mutex
  have henter : ∃ m', step {s with machine := m} (.file (.run p .go)) = some {s with machine := m'} ∧
      (m'.task p).pc = .lock := by
    refine ⟨_,by simp only [step, Concurrent.step, htask, hr]; rfl,?_⟩
    show (Function.update m.task p r.task p).pc = .lock
    rw [Function.update_self,hpc]
  obtain ⟨m',hm',hlock⟩ := henter
  apply not_meets_cons (step_other hlive hcall)
  apply not_meets_cons (step_other (a := .file (.run p .go)) hlive hm')
  exact unsound_other (o := .devMutex) (a := .file (.run p .go)) hlive (by simp [Act.uses, hlock, fileUses]) rfl hnot []

/-- A thread, an interrupt, a read or a write that comes too early can go on to use an object that is
not initialised. -/
theorem unsound_of_unguarded {acts : List (StartupAct Act)} {s t : Starting Sys} {a : StartupAct Act}
    (hC : Meets startup.step (startup.Guarded Act.needs) booting acts)
    (h : run startup.step booting acts = some s) (ht : startup.step s a = some t)
    (hbad : ¬ startup.Guarded Act.needs s a) : ∃ more, ¬ Meets startup.step startup.Sound s (a::more) := by
  have hbehind := Kernel.Startup.behind_of_guarded guarding hC h
  obtain ⟨s,n⟩ := s
  cases a with
  | init => exact absurd trivial hbad
  | other a =>
    simp only [Kernel.Startup.step, Option.ite_none_right_eq_some, Option.map_eq_some_iff] at ht
    obtain ⟨hlive,u,hu,-⟩ := ht
    cases a with
    | thread i =>
      simp only [Kernel.Startup.Guarded, Act.needs] at hbad
      split at hbad
      next hst =>
        exact unsound_thread hbehind hlive hu hst (by simpa using hbad)
      next hst =>
        refine ⟨[],unsound_other (o := .lock globalmemSeqLock) hlive ?_ rfl (by simpa using hbad) []⟩
        simp [Act.uses, hst, threadUses]
      next => exact absurd (by simp) hbad
    | irq =>
      simp only [startup, step, Option.ite_none_right_eq_some] at hu
      exact ⟨_,unsound_irq hlive hu.1 (by simpa [Kernel.Startup.Guarded, Act.needs] using hbad)⟩
    | file a =>
      cases a with
      | call p c =>
        simp only [startup, step, Option.map_eq_some_iff, Concurrent.step, Option.ite_none_right_eq_some] at hu
        obtain ⟨m,⟨hidle,-⟩,-⟩ := hu
        by_cases hlocks : locks c = true
        · exact ⟨_,unsound_call hlive hidle hlocks (by simpa [Kernel.Startup.Guarded, Act.needs, hlocks] using hbad)⟩
        · exact absurd (by simp [Kernel.Startup.Guarded, Act.needs, hlocks]) hbad
      | run p c => exact absurd (by simp [Kernel.Startup.Guarded, Act.needs]) hbad
    | _ => exact absurd (by simp [Kernel.Startup.Guarded, Act.needs]) hbad

end Unguarded

end ExampleKernel.GlobalMem.Startup
