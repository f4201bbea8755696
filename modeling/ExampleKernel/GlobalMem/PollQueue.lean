import ExampleKernel.Foundation.Transition
import ExampleKernel.GlobalMem.Poll

/-! Pollers of globalmem asleep on `wait_queue_globalmem_data`, one statement at a time. The two flags are
read and written without a lock by any number of polls, stores and shows. -/
namespace ExampleKernel.GlobalMem.PollQueue
open ExampleKernel.Foundation ExampleKernel.Kernel
open Poll (Mask Readiness)

deriving instance DecidableEq for Readiness

inductive Call
  | poll (events : Mask)
  | sysfsStore (scanned : Option ℤ) (count : ℕ)
  | sysfsShow (desc : Bool)

/-- The statement that a task executes next: `testRead` and `clearRead` are the two halves of
`if (can_read) can_read = false`. The `sel` points belong to the poll core. -/
inductive Pc
  | idle
  | pollWait
  | testRead | clearRead | testWrite | clearWrite | pollRet
  | selCheck | selSleep | selSchedule | selAsleep | selAgain | selFree
  | irqToDesc | scan | raise | wakeUp | ret
  deriving DecidableEq

/-- A task with the locals of its call. `cover` is history: how many events of each kind there had been
when the task lowered the flag. -/
structure Task where
  call : Call
  pc : Pc
  state : TaskState
  mask : Mask
  polling : Bool
  triggered : Bool
  ret : ℤ
  cover : Readiness → ℕ

/-- `can .input` is `can_read` and `can .output` is `can_write`. `raised` and `reported` are history: the
events so far, and how many of them the finished polls have reported. -/
structure Sys where
  can : Readiness → Bool
  sysfsValue : ℤ
  wait : List Pid
  task : Pid → Task
  raised : Readiness → ℕ
  reported : Readiness → ℕ

/-- The effect of one statement on what tasks share. -/
inductive Effect
  | none
  | addWaitQueue
  | removeWaitQueue
  | scan (value : ℤ)
  | raise (d : Readiness)
  | lower (d : Readiness)
  | wakeUp
  | report (mask : Mask) (cover : Readiness → ℕ)

def Task.goto (t : Task) (pc : Pc) : Task := {t with pc := pc}

def Task.wakeFunction (t : Task) : Task := {t with state := .running, triggered := true}

def globalmemPoll (s : Sys) (t : Task) : Option (Task × Effect) :=
  match t.pc with
  | .pollWait =>
    some ({t with pc := .testRead, mask := ⟨false,false⟩}, if t.polling then .none else .addWaitQueue)
  | .testRead => if s.can .input then some (t.goto .clearRead,.none) else some (t.goto .testWrite,.none)
  | .clearRead =>
    some ({t with
      pc := .testWrite, mask := ⟨true,t.mask.pollout⟩
      cover := Function.update t.cover .input (s.raised .input)},.lower .input)
  | .testWrite => if s.can .output then some (t.goto .clearWrite,.none) else some (t.goto .pollRet,.none)
  | .clearWrite =>
    some ({t with
      pc := .pollRet, mask := ⟨t.mask.pollin,true⟩
      cover := Function.update t.cover .output (s.raised .output)},.lower .output)
  | .pollRet => some ({t with pc := .selCheck, polling := true},.report t.mask t.cover)
  | _ => none

/-- The poll core around `globalmem_poll`. -/
def doPoll (events : Mask) (s : Sys) (t : Task) (giveUp : Bool) : Option (Task × Effect) :=
  match t.pc with
  | .selCheck =>
    if (t.mask.pollin && events.pollin) || (t.mask.pollout && events.pollout) || giveUp then
      some (t.goto .selFree,.none)
    else some (t.goto .selSleep,.none)
  | .selSleep => some ({t with pc := .selSchedule, state := .interruptible},.none)
  | .selSchedule =>
    if t.triggered ∨ t.state = .running then some ({t with pc := .selAgain, state := .running},.none)
    else some (t.goto .selAsleep,.none)
  | .selAsleep => if t.state = .running then some (t.goto .selAgain,.none) else none
  | .selAgain => some ({t with pc := .pollWait, triggered := false},.none)
  | .selFree => some (t.goto .idle,.removeWaitQueue)
  | _ => globalmemPoll s t

def sysfsStore (scanned : Option ℤ) (count : ℕ) (s : Sys) (t : Task) : Option (Task × Effect) :=
  match t.pc with
  | .scan => some (t.goto .raise,.scan (scanned.getD s.sysfsValue))
  | .raise => some (t.goto .wakeUp,.raise .input)
  | .wakeUp => some (t.goto .ret,.wakeUp)
  | .ret => some ({t with pc := .idle, ret := count},.none)
  | _ => none

def sysfsShow (desc : Bool) (s : Sys) (t : Task) : Option (Task × Effect) :=
  match t.pc with
  | .irqToDesc =>
    if desc then some (t.goto .raise,.none) else some ({t with pc := .idle, ret := -einval},.none)
  | .raise => some (t.goto .wakeUp,.raise .output)
  | .wakeUp => some (t.goto .ret,.wakeUp)
  | .ret => some ({t with pc := .idle, ret := (toString s.sysfsValue).length},.none)
  | _ => none

def statement (s : Sys) (t : Task) (giveUp : Bool) : Option (Task × Effect) :=
  match t.call with
  | .poll events => doPoll events s t giveUp
  | .sysfsStore scanned count => sysfsStore scanned count s t
  | .sysfsShow desc => sysfsShow desc s t

def Effect.apply (p : Pid) (s : Sys) : Effect → Sys
  | .none => s
  | .addWaitQueue => {s with wait := p :: s.wait}
  | .removeWaitQueue => {s with wait := s.wait.erase p}
  | .scan value => {s with sysfsValue := value}
  | .raise d => {s with can := Function.update s.can d true, raised := Function.update s.raised d (s.raised d+1)}
  | .lower d => {s with can := Function.update s.can d false}
  | .wakeUp => {s with task := fun r => if r ∈ s.wait then (s.task r).wakeFunction else s.task r}
  | .report mask cover =>
    {s with reported := fun d => if d.bit mask then max (s.reported d) (cover d) else s.reported d}

def entryPoint : Call → Pc
  | .poll _ => .pollWait
  | .sysfsStore _ _ => .scan
  | .sysfsShow _ => .irqToDesc

/-- A fresh frame for a call. -/
def Task.enter (c : Call) : Task where
  call := c
  pc := entryPoint c
  state := .running
  mask := ⟨false,false⟩
  polling := false
  triggered := false
  ret := 0
  cover _ := 0

def Sys.setTask (s : Sys) (p : Pid) (t : Task) : Sys := {s with task := Function.update s.task p t}

/-- `giveUp` stands for a signal or a timeout that `do_poll` finds in its loop. -/
inductive Act
  | call (p : Pid) (c : Call)
  | run (p : Pid) (giveUp : Bool)
  | timeout (p : Pid)

def step (s : Sys) : Act → Option Sys
  | .call p c => if (s.task p).pc = .idle then some (s.setTask p (.enter c)) else none
  | .run p giveUp => (statement s (s.task p) giveUp).map fun r => r.2.apply p (s.setTask p r.1)
  | .timeout p =>
    if (s.task p).pc = .selAsleep then some (s.setTask p {s.task p with state := .running}) else none

/-- The module as loaded, with no call in progress. -/
def loaded : Sys where
  can _ := false
  sysfsValue := 0
  wait := []
  task _ := {Task.enter (.sysfsShow false) with pc := .idle}
  raised _ := 0
  reported _ := 0

section Moves
variable (events : Mask) (scanned : Option ℤ) (count : ℕ) (desc : Bool) (s : Sys) (t : Task) (giveUp : Bool)

/-- From the frame `t` a statement of `globalmem_poll` or of the poll core leads to a frame, with an effect. -/
inductive PollMove : Task → Effect → Prop
  | first (hfirst : t.polling = false) (hpc : t.pc = .pollWait) :
      PollMove {t with pc := .testRead, mask := ⟨false,false⟩} .addWaitQueue
  | again (hlater : t.polling = true) (hpc : t.pc = .pollWait) :
      PollMove {t with pc := .testRead, mask := ⟨false,false⟩} .none
  | canRead (hcan : s.can .input = true) (hpc : t.pc = .testRead) : PollMove (t.goto .clearRead) .none
  | cannotRead (hcan : s.can .input = false) (hpc : t.pc = .testRead) : PollMove (t.goto .testWrite) .none
  | clearRead (hpc : t.pc = .clearRead) : PollMove {t with
      pc := .testWrite, mask := ⟨true,t.mask.pollout⟩
      cover := Function.update t.cover .input (s.raised .input)} (.lower .input)
  | canWrite (hcan : s.can .output = true) (hpc : t.pc = .testWrite) : PollMove (t.goto .clearWrite) .none
  | cannotWrite (hcan : s.can .output = false) (hpc : t.pc = .testWrite) : PollMove (t.goto .pollRet) .none
  | clearWrite (hpc : t.pc = .clearWrite) : PollMove {t with
      pc := .pollRet, mask := ⟨t.mask.pollin,true⟩
      cover := Function.update t.cover .output (s.raised .output)} (.lower .output)
  | ret (hpc : t.pc = .pollRet) : PollMove {t with pc := .selCheck, polling := true} (.report t.mask t.cover)
  | leave (hready : ((t.mask.pollin && events.pollin) || (t.mask.pollout && events.pollout) || giveUp) = true)
      (hpc : t.pc = .selCheck) : PollMove (t.goto .selFree) .none
  | stay (hready : ¬ ((t.mask.pollin && events.pollin) || (t.mask.pollout && events.pollout) || giveUp) = true)
      (hpc : t.pc = .selCheck) : PollMove (t.goto .selSleep) .none
  | sleep (hpc : t.pc = .selSleep) : PollMove {t with pc := .selSchedule, state := .interruptible} .none
  | pass (hawake : t.triggered = true ∨ t.state = .running) (hpc : t.pc = .selSchedule) :
      PollMove {t with pc := .selAgain, state := .running} .none
  | block (hawake : ¬ (t.triggered = true ∨ t.state = .running)) (hpc : t.pc = .selSchedule) :
      PollMove (t.goto .selAsleep) .none
  | woken (hstate : t.state = .running) (hpc : t.pc = .selAsleep) : PollMove (t.goto .selAgain) .none
  | next (hpc : t.pc = .selAgain) : PollMove {t with pc := .pollWait, triggered := false} .none
  | free (hpc : t.pc = .selFree) : PollMove (t.goto .idle) .removeWaitQueue

/-- The same for `sysfs_store`. -/
inductive StoreMove : Task → Effect → Prop
  | scan (hpc : t.pc = .scan) : StoreMove (t.goto .raise) (.scan (scanned.getD s.sysfsValue))
  | raise (hpc : t.pc = .raise) : StoreMove (t.goto .wakeUp) (.raise .input)
  | wakeUp (hpc : t.pc = .wakeUp) : StoreMove (t.goto .ret) .wakeUp
  | ret (hpc : t.pc = .ret) : StoreMove {t with pc := .idle, ret := count} .none

/-- The same for `sysfs_show`. -/
inductive ShowMove : Task → Effect → Prop
  | found (hdesc : desc = true) (hpc : t.pc = .irqToDesc) : ShowMove (t.goto .raise) .none
  | missing (hdesc : desc = false) (hpc : t.pc = .irqToDesc) : ShowMove {t with pc := .idle, ret := -einval} .none
  | raise (hpc : t.pc = .raise) : ShowMove (t.goto .wakeUp) (.raise .output)
  | wakeUp (hpc : t.pc = .wakeUp) : ShowMove (t.goto .ret) .wakeUp
  | ret (hpc : t.pc = .ret) : ShowMove {t with pc := .idle, ret := (toString s.sysfsValue).length} .none

variable {events scanned count desc s t giveUp} {t' : Task} {e : Effect}

theorem poll_move (h : doPoll events s t giveUp = some (t',e)) : PollMove events s t giveUp t' e := by
  cases hpc : t.pc <;> simp only [doPoll, globalmemPoll, hpc, reduceCtorEq] at h
  case pollWait =>
    cases h
    split_ifs with hlater <;> [exact .again hlater hpc; exact .first (Bool.eq_false_iff.mpr hlater) hpc]
  case testRead =>
    split_ifs at h with hcan <;> cases h
    · exact .canRead hcan hpc
    · exact .cannotRead (Bool.eq_false_iff.mpr hcan) hpc
  case testWrite =>
    split_ifs at h with hcan <;> cases h
    · exact .canWrite hcan hpc
    · exact .cannotWrite (Bool.eq_false_iff.mpr hcan) hpc
  case selCheck => split_ifs at h with hready <;> cases h <;> [exact .leave hready hpc; exact .stay hready hpc]
  case selSchedule => split_ifs at h with hawake <;> cases h <;> [exact .pass hawake hpc; exact .block hawake hpc]
  case selAsleep => split_ifs at h with hstate; cases h; exact .woken hstate hpc
  all_goals
    cases h
    first
    | exact .clearRead hpc
    | exact .clearWrite hpc
    | exact .ret hpc
    | exact .sleep hpc
    | exact .next hpc
    | exact .free hpc

theorem store_move (h : sysfsStore scanned count s t = some (t',e)) : StoreMove scanned count s t t' e := by
  cases hpc : t.pc <;> simp only [sysfsStore, hpc, reduceCtorEq] at h
  all_goals cases h
  · exact .scan hpc
  · exact .raise hpc
  · exact .wakeUp hpc
  · exact .ret hpc

theorem show_move (h : sysfsShow desc s t = some (t',e)) : ShowMove desc s t t' e := by
  cases hpc : t.pc <;> simp only [sysfsShow, hpc, reduceCtorEq] at h
  case irqToDesc =>
    split_ifs at h with hdesc <;> cases h
    · exact .found hdesc hpc
    · exact .missing (Bool.eq_false_iff.mpr hdesc) hpc
  all_goals cases h
  · exact .raise hpc
  · exact .wakeUp hpc
  · exact .ret hpc

/-- A statement is one of the three calls. -/
theorem statement_move (h : statement s t giveUp = some (t',e)) :
    (∃ events, t.call = .poll events ∧ PollMove events s t giveUp t' e) ∨
    (∃ scanned count, t.call = .sysfsStore scanned count ∧ StoreMove scanned count s t t' e) ∨
    ∃ desc, t.call = .sysfsShow desc ∧ ShowMove desc s t t' e := by
  cases hcall : t.call <;> simp only [statement, hcall] at h
  · exact .inl ⟨_,rfl,poll_move h⟩
  · exact .inr (.inl ⟨_,_,rfl,store_move h⟩)
  · exact .inr (.inr ⟨_,rfl,show_move h⟩)

end Moves

section Tasks

/-- Program points of a poller with an entry on the wait queue, once the first pass has added it. -/
def Pc.registered (polling : Bool) : Pc → Bool
  | .pollWait => polling
  | .testRead | .clearRead | .testWrite | .clearWrite | .pollRet | .selCheck | .selSleep | .selSchedule | .selAsleep
  | .selAgain | .selFree => true
  | _ => false

/-- Program points between the test of a flag and the end of the sleep. -/
def Pc.tested : Pc → Readiness → Bool
  | .testWrite, .input | .clearWrite, .input => true
  | .pollRet, _ | .selCheck, _ | .selSleep, _ | .selSchedule, _ | .selAsleep, _ => true
  | _, _ => false

/-- Program points between the reset of a flag and the report of it. -/
def Pc.carries : Pc → Readiness → Bool
  | .testWrite, .input | .clearWrite, .input | .pollRet, _ => true
  | _, _ => false

def Call.isPoll : Call → Bool
  | .poll _ => true
  | _ => false

/-- The poller did not find the flag up in this round, and nobody has woken it since. -/
def Task.waits (t : Task) (d : Readiness) : Bool :=
  t.call.isPoll && t.pc.tested d && !d.bit t.mask && !t.triggered && (t.pc ≠ .selAsleep || t.state = .interruptible)

/-- The flag that the call raises before it wakes the pollers. -/
def Call.raises : Call → Option Readiness
  | .sysfsStore _ _ => some .input
  | .sysfsShow _ => some .output
  | .poll _ => none

/-- The task has raised the flag and is about to wake the pollers. -/
def Task.wakes (t : Task) (d : Readiness) : Bool := t.pc = .wakeUp && t.call.raises = some d

/-- The poller has lowered the flag and is about to report it. -/
def Task.carries (t : Task) (d : Readiness) : Bool := t.call.isPoll && t.pc.carries d && d.bit t.mask

/-- The event that a poller asks for. -/
def Call.wants : Call → Readiness → Bool
  | .poll events, d => d.bit events
  | _, _ => false

/-- In its loop the poll core has called `globalmem_poll` at least once, and sleeps only if that found
nothing that the caller wants. -/
structure Task.patient (t : Task) : Prop where
  polling : t.pc = .selCheck ∨ t.pc = .selSleep ∨ t.pc = .selSchedule ∨ t.pc = .selAsleep ∨ t.pc = .selAgain →
    t.polling = true
  unready : ∀ d : Readiness, t.pc = .selSleep ∨ t.pc = .selSchedule ∨ t.pc = .selAsleep →
    t.call.wants d = true → d.bit t.mask = false
  asleep : t.pc = .selAsleep → t.state = .interruptible → t.triggered = false

variable {s : Sys} {t t' : Task} {e : Effect} {giveUp : Bool}

theorem statement_call (h : statement s t giveUp = some (t',e)) : t'.call = t.call := by
  obtain ⟨_,-,h⟩ | ⟨_,_,-,h⟩ | ⟨_,-,h⟩ := statement_move h
  all_goals cases h <;> rfl

attribute [local simp] Task.goto Pc.registered Pc.tested Pc.carries Call.isPoll Task.waits Call.raises Task.wakes
  Task.carries Call.wants Readiness.bit

theorem statement_patient (h : statement s t giveUp = some (t',e)) (hp : t.patient) : t'.patient := by
  have hpolling := hp.polling
  have hinput := hp.unready .input
  have houtput := hp.unready .output
  have hasleep := hp.asleep
  clear hp
  obtain ⟨_,hcall,h⟩ | ⟨_,_,hcall,h⟩ | ⟨_,hcall,h⟩ := statement_move h
  all_goals
    cases h
    all_goals
      refine ⟨by simp_all,?_,by simp_all⟩
      rintro (_ | _) <;> simp_all <;> grind

/-- What a statement means for the wait queue. -/
structure Queues (s : Sys) (t t' : Task) (e : Effect) : Prop where
  call : t'.call = t.call
  registered : t'.call.isPoll = true → t'.pc.registered t'.polling = true →
    t.pc.registered t.polling = true ∧ e ≠ .removeWaitQueue ∨ e = .addWaitQueue
  waits : ∀ d : Readiness, t'.waits d = true → (t.waits d = true ∨ s.can d = false) ∧ e ≠ .wakeUp ∧
    ∀ k, e ≠ .raise k
  wakes : ∀ d : Readiness, t.wakes d = true → e = .wakeUp
  raises : ∀ d : Readiness, e = .raise d → t'.wakes d = true

theorem statement_queues (hp : t.patient) (h : statement s t giveUp = some (t',e)) : Queues s t t' e := by
  have hcalls := statement_call h
  have hpolling := hp.polling
  obtain ⟨_,hcall,h⟩ | ⟨_,_,hcall,h⟩ | ⟨_,hcall,h⟩ := statement_move h
  all_goals
    cases h
    all_goals
      refine ⟨hcalls,?_,?_,?_,?_⟩
      · simp_all
      · rintro (_ | _) <;> simp_all
      · rintro (_ | _) <;> simp_all
      · rintro (_ | _) <;> simp_all

/-- What a statement means for the events: whoever lowers a flag carries the events so far until the report. -/
structure Delivers (s : Sys) (t t' : Task) (e : Effect) : Prop where
  carries : ∀ d, t.carries d = true → t'.carries d = true ∧ t'.cover d = t.cover d ∨ e = .report t.mask t.cover
  lowers : ∀ d, e = .lower d → t'.carries d = true ∧ t'.cover d = s.raised d
  reports : ∀ mask cover, e = .report mask cover → cover = t.cover
  cover : ∀ d, t'.cover d = t.cover d ∨ t'.cover d = s.raised d

theorem statement_delivers (h : statement s t giveUp = some (t',e)) : Delivers s t t' e := by
  obtain ⟨_,hcall,h⟩ | ⟨_,_,hcall,h⟩ | ⟨_,hcall,h⟩ := statement_move h
  all_goals
    cases h
    all_goals
      refine ⟨?_,?_,?_,?_⟩
      · rintro (_ | _) <;> simp_all
      · rintro (_ | _) <;> simp_all
      · simp_all
      · rintro (_ | _) <;> simp_all

/-- What an event that is not its own does to a task. -/
inductive Nudge (t : Task) : Task → Prop
  | refl : Nudge t t
  | wakeFunction : Nudge t t.wakeFunction
  | timeout (h : t.pc = .selAsleep) : Nudge t {t with state := .running}

variable (h : Nudge t t')
include h

theorem Nudge.pc : t'.pc = t.pc := by cases h <;> rfl
theorem Nudge.call : t'.call = t.call := by cases h <;> rfl
theorem Nudge.mask : t'.mask = t.mask := by cases h <;> rfl
theorem Nudge.polling : t'.polling = t.polling := by cases h <;> rfl
theorem Nudge.cover : t'.cover = t.cover := by cases h <;> rfl

theorem Nudge.wakes (d : Readiness) : t'.wakes d = t.wakes d := by
  unfold Task.wakes
  rw [h.pc,h.call]

theorem Nudge.carries (d : Readiness) : t'.carries d = t.carries d := by
  unfold Task.carries
  rw [h.call,h.pc,h.mask]

theorem Nudge.patient (hp : t.patient) : t'.patient := by
  refine ⟨fun hpc => ?_,fun d hpc => ?_,fun hpc hstate => ?_⟩
  · rw [h.polling]
    exact hp.polling (h.pc ▸ hpc)
  · rw [h.call,h.mask]
    exact hp.unready d (h.pc ▸ hpc)
  · cases h with
    | refl => exact hp.asleep hpc hstate
    | wakeFunction => cases hstate
    | timeout => cases hstate

theorem Nudge.waits (d : Readiness) (hw : t'.waits d = true) : t.waits d = true := by
  cases h with
  | refl => exact hw
  | wakeFunction => simp [Task.wakeFunction] at hw
  | timeout hpc => simp [hpc] at hw

end Tasks

section Runs
variable {s s' : Sys} {a : Act} {p r : Pid} {t : Task} {e : Effect}

@[simp] theorem setTask_self (s : Sys) (p : Pid) (t : Task) : (s.setTask p t).task p = t := Function.update_self _ _ _

theorem setTask_other (s : Sys) (t : Task) (h : r ≠ p) : (s.setTask p t).task r = s.task r :=
  Function.update_of_ne h _ _

theorem apply_nudge (p : Pid) (s : Sys) (e : Effect) (r : Pid) : Nudge (s.task r) ((e.apply p s).task r) := by
  cases e with
  | wakeUp =>
    simp only [Effect.apply]
    split_ifs <;> [exact .wakeFunction; exact .refl]
  | _ => exact .refl

theorem apply_other (hr : r ≠ p) (s : Sys) (t : Task) (e : Effect) :
    Nudge (s.task r) ((e.apply p (s.setTask p t)).task r) := by
  simpa [setTask_other s t hr] using apply_nudge p (s.setTask p t) e r

theorem apply_self (s : Sys) (p : Pid) (t : Task) (e : Effect) : Nudge t ((e.apply p (s.setTask p t)).task p) := by
  simpa using apply_nudge p (s.setTask p t) e p

/-- A call begins, a statement is executed, or a sleeper is woken by its timeout. -/
theorem step_cases (h : step s a = some s') :
    (∃ p c, a = .call p c ∧ (s.task p).pc = .idle ∧ s' = s.setTask p (.enter c)) ∨
    (∃ p giveUp t e, a = .run p giveUp ∧ statement s (s.task p) giveUp = some (t,e) ∧ s' = e.apply p (s.setTask p t)) ∨
    ∃ p t, a = .timeout p ∧ Nudge (s.task p) t ∧ s' = s.setTask p t := by
  cases a with
  | call p c =>
    simp only [step, Option.ite_none_right_eq_some, Option.some.injEq] at h
    exact .inl ⟨p,c,rfl,h.1,h.2.symm⟩
  | run p giveUp =>
    simp only [step, Option.map_eq_some_iff] at h
    obtain ⟨⟨t,e⟩,hst,rfl⟩ := h
    exact .inr (.inl ⟨p,giveUp,t,e,rfl,hst,rfl⟩)
  | timeout p =>
    simp only [step, Option.ite_none_right_eq_some, Option.some.injEq] at h
    exact .inr (.inr ⟨p,_,rfl,.timeout h.1,h.2.symm⟩)

/-- Registered pollers are on the wait queue, and a flag is up while a poller waits for it only until the
task that raised it wakes the queue. -/
structure Inv (s : Sys) : Prop where
  queued : ∀ p, (s.task p).call.isPoll = true → (s.task p).pc.registered (s.task p).polling = true → p ∈ s.wait
  patient : ∀ p, (s.task p).patient
  alert : ∀ p d, (s.task p).waits d = true → s.can d = true → ∃ r, (s.task r).wakes d = true

theorem inv_loaded : Inv loaded where
  queued p h := by simp [loaded, Task.enter, Call.isPoll] at h
  patient p := by constructor <;> simp [loaded, Task.enter]
  alert p d h := by simp [loaded, Task.enter, Task.waits, Call.isPoll] at h

theorem wait_of_registered (hs : Inv s) (t : Task) (hr : r ≠ p) (hw : (s.task r).call.isPoll = true)
    (hreg : (s.task r).pc.registered (s.task r).polling = true) : r ∈ (e.apply p (s.setTask p t)).wait := by
  have hmem := hs.queued r hw hreg
  cases e with
  | addWaitQueue => exact List.mem_cons_of_mem _ hmem
  | removeWaitQueue => exact (List.mem_erase_of_ne hr).mpr hmem
  | _ => exact hmem

theorem apply_can (p : Pid) (s : Sys) {d : Readiness} (h : e ≠ .raise d) (hcan : (e.apply p s).can d = true) :
    s.can d = true := by
  cases e with
  | raise k =>
    have hd : d ≠ k := fun hd => h (hd ▸ rfl)
    simpa [Effect.apply, Function.update_of_ne hd] using hcan
  | lower k =>
    by_cases hd : d = k
    · subst hd; simp [Effect.apply] at hcan
    · simpa [Effect.apply, Function.update_of_ne hd] using hcan
  | _ => exact hcan

theorem registered_of_waits {t : Task} {d : Readiness} (h : t.waits d = true) :
    t.call.isPoll = true ∧ t.pc.registered t.polling = true := by
  simp only [Task.waits, Bool.and_eq_true] at h
  obtain ⟨⟨⟨⟨hpoll,htested⟩,-⟩,-⟩,-⟩ := h
  refine ⟨hpoll,?_⟩
  cases hpc : t.pc <;> cases d <;> simp [Pc.tested, hpc] at htested <;> rfl

theorem queued_statement (hs : Inv s) (hst : Queues s (s.task p) t e) (r : Pid) :
    ((e.apply p (s.setTask p t)).task r).call.isPoll = true →
    ((e.apply p (s.setTask p t)).task r).pc.registered ((e.apply p (s.setTask p t)).task r).polling = true →
      r ∈ (e.apply p (s.setTask p t)).wait := by
  intro hpoll hreg
  by_cases hr : r = p
  · subst hr
    have hself := apply_self s r t e
    rw [hself.call] at hpoll
    rw [hself.pc,hself.polling] at hreg
    obtain ⟨hold,hne⟩ | rfl := hst.registered hpoll hreg
    · have hmem := hs.queued r (hst.call ▸ hpoll) hold
      cases e with
      | addWaitQueue => exact List.mem_cons_of_mem _ hmem
      | removeWaitQueue => contradiction
      | _ => exact hmem
    · exact List.mem_cons_self
  · have hother := apply_other hr s t e
    rw [hother.call] at hpoll
    rw [hother.pc,hother.polling] at hreg
    exact wait_of_registered hs t hr hpoll hreg

theorem alert_statement (hs : Inv s) (hst : Queues s (s.task p) t e) (r : Pid) (d : Readiness)
    (hw : ((e.apply p (s.setTask p t)).task r).waits d = true)
    (hcan : (e.apply p (s.setTask p t)).can d = true) :
    ∃ k, ((e.apply p (s.setTask p t)).task k).wakes d = true := by
  have hself := apply_self s p t e
  by_cases hwake : e = .wakeUp
  · -- the wake-up reaches everybody on the queue
    subst hwake
    exfalso
    by_cases hr : r = p
    · subst hr
      exact (hst.waits d (hself.waits d hw)).2.1 rfl
    · obtain ⟨hpoll,hreg⟩ := registered_of_waits ((apply_other hr s t .wakeUp).waits d hw)
      have htask : (Effect.apply p (s.setTask p t) .wakeUp).task r = (s.task r).wakeFunction := by
        simp only [Effect.apply, Sys.setTask, Function.update_of_ne hr]
        exact if_pos (hs.queued r hpoll hreg)
      simp [htask, Task.waits, Task.wakeFunction] at hw
  by_cases hraise : e = .raise d
  · exact ⟨p,(hself.wakes d).trans (hst.raises d hraise)⟩
  have hold : (s.task r).waits d = true := by
    by_cases hr : r = p
    · subst hr
      refine (hst.waits d (hself.waits d hw)).1.resolve_right fun hcan' => ?_
      have : s.can d = true := apply_can r (s.setTask r t) hraise hcan
      rw [hcan'] at this
      contradiction
    · exact (apply_other hr s t e).waits d hw
  obtain ⟨k,hk⟩ := hs.alert r d hold (apply_can p (s.setTask p t) hraise hcan)
  have hkp : k ≠ p := by
    rintro rfl
    exact hwake (hst.wakes d hk)
  exact ⟨k,((apply_other hkp s t e).wakes d).trans hk⟩

theorem inv_call (hs : Inv s) (hidle : (s.task p).pc = .idle) (c : Call) : Inv (s.setTask p (.enter c)) := by
  constructor
  · intro r hpoll hreg
    by_cases hr : r = p
    · subst hr
      rw [setTask_self] at hreg
      cases c <;> simp [Task.enter, entryPoint, Pc.registered] at hreg
    · rw [setTask_other s _ hr] at hpoll hreg
      exact hs.queued r hpoll hreg
  · intro r
    by_cases hr : r = p
    · subst hr
      rw [setTask_self]
      constructor <;> cases c <;> simp [Task.enter, entryPoint]
    · rw [setTask_other s _ hr]
      exact hs.patient r
  · intro r d hw hcan
    have hr : r ≠ p := by
      rintro rfl
      rw [setTask_self] at hw
      cases c <;> cases d <;> simp [Task.enter, entryPoint, Task.waits, Pc.tested] at hw
    rw [setTask_other s _ hr] at hw
    obtain ⟨k,hk⟩ := hs.alert r d hw hcan
    have hkp : k ≠ p := by
      rintro rfl
      simp [Task.wakes, hidle] at hk
    exact ⟨k,by rwa [setTask_other s _ hkp]⟩

theorem inv_nudge (hs : Inv s) (h : Nudge (s.task p) t) : Inv (s.setTask p t) := by
  have hall : ∀ r, Nudge (s.task r) ((s.setTask p t).task r) := by
    intro r
    by_cases hr : r = p
    · subst hr; rwa [setTask_self]
    · rw [setTask_other s t hr]; exact .refl
  refine ⟨fun r hpoll hreg => ?_,fun r => (hall r).patient (hs.patient r),fun r d hw hcan => ?_⟩
  · rw [(hall r).call] at hpoll
    rw [(hall r).pc,(hall r).polling] at hreg
    exact hs.queued r hpoll hreg
  · obtain ⟨k,hk⟩ := hs.alert r d ((hall r).waits d hw) hcan
    exact ⟨k,((hall k).wakes d).trans hk⟩

theorem inv_step (h : step s a = some s') (hs : Inv s) : Inv s' := by
  obtain ⟨p,c,-,hidle,rfl⟩ | ⟨p,giveUp,t,e,-,hst,rfl⟩ | ⟨p,t,-,hn,rfl⟩ := step_cases h
  · exact inv_call hs hidle c
  · have hq := statement_queues (hs.patient p) hst
    refine ⟨queued_statement hs hq,fun r => ?_,alert_statement hs hq⟩
    by_cases hr : r = p
    · subst hr
      exact (apply_self s r t e).patient (statement_patient hst (hs.patient r))
    · exact (apply_other hr s t e).patient (hs.patient r)
  · exact inv_nudge hs hn

/-- No lost wake-up: a poller sleeps only with the flags of the events it asks for down, or while a task that
raised one is about to wake the queue. -/
theorem sleepers_have_nothing {acts : List Act} (h : run step loaded acts = some s)
    (hasleep : (s.task p).pc = .selAsleep) (hstate : (s.task p).state = .interruptible) {d : Readiness}
    (hwants : (s.task p).call.wants d = true) : s.can d = false ∨ ∃ r, (s.task r).wakes d = true := by
  have hs : Inv s := run_invariant (fun _ _ _ => inv_step) h inv_loaded
  have hpatient := hs.patient p
  have hbit := hpatient.unready d (.inr (.inr hasleep)) hwants
  have htriggered := hpatient.asleep hasleep hstate
  have hpoll : (s.task p).call.isPoll = true := by
    cases hcall : (s.task p).call with
    | poll events => rfl
    | _ => rw [hcall] at hwants; cases hwants
  have hwaits : (s.task p).waits d = true := by
    cases d <;> simp [Task.waits, hpoll, hasleep, hstate, hbit, htriggered, Pc.tested]
  by_cases hcan : s.can d = true
  · exact .inr (hs.alert p d hwaits hcan)
  · exact .inl (Bool.not_eq_true _ ▸ hcan)

/-- Every event is announced by a flag, has been reported, or is carried by a poller that lowered the flag
after it. -/
structure Accounts (s : Sys) : Prop where
  reported : ∀ d, s.reported d ≤ s.raised d
  cover : ∀ p d, (s.task p).cover d ≤ s.raised d
  kept : ∀ d, s.can d = true ∨ s.reported d = s.raised d ∨
    ∃ p, (s.task p).carries d = true ∧ (s.task p).cover d = s.raised d

theorem accounts_loaded : Accounts loaded where
  reported _ := le_rfl
  cover _ _ := le_rfl
  kept _ := .inr (.inl rfl)

theorem apply_raised (p : Pid) (s : Sys) {d : Readiness} (h : e ≠ .raise d) : (e.apply p s).raised d = s.raised d := by
  cases e with
  | raise k =>
    have hd : d ≠ k := fun hd => h (hd ▸ rfl)
    simp [Effect.apply, Function.update_of_ne hd]
  | _ => rfl

theorem raised_le (p : Pid) (s : Sys) (e : Effect) (d : Readiness) : s.raised d ≤ (e.apply p s).raised d := by
  by_cases h : e = .raise d
  · subst h; simp [Effect.apply]
  · exact (apply_raised p s h).ge

theorem apply_can_of_ne (p : Pid) (s : Sys) {d : Readiness} (h : e ≠ .lower d) (hcan : s.can d = true) :
    (e.apply p s).can d = true := by
  cases e with
  | raise k =>
    by_cases hd : d = k
    · subst hd; simp [Effect.apply]
    · simpa [Effect.apply, Function.update_of_ne hd] using hcan
  | lower k =>
    have hd : d ≠ k := fun hd => h (hd ▸ rfl)
    simpa [Effect.apply, Function.update_of_ne hd] using hcan
  | _ => exact hcan

/-- A report counts nothing that has not happened, and takes nothing back. -/
theorem apply_reported (hs : Accounts s) (hd : Delivers s (s.task p) t e) (d : Readiness) :
    s.reported d ≤ (e.apply p (s.setTask p t)).reported d ∧
      (e.apply p (s.setTask p t)).reported d ≤ s.raised d := by
  have hle := hs.reported d
  cases e with
  | report mask cover =>
    have hcover := hs.cover p d
    rw [← hd.reports mask cover rfl] at hcover
    change _ ≤ ite _ _ _ ∧ ite _ _ _ ≤ _
    split_ifs
    · exact ⟨le_max_left _ _,max_le hle hcover⟩
    · exact ⟨le_rfl,hle⟩
  | _ => exact ⟨le_rfl,hle⟩

theorem cover_statement (hs : Accounts s) (hd : Delivers s (s.task p) t e) (r : Pid) (d : Readiness) :
    ((e.apply p (s.setTask p t)).task r).cover d ≤ s.raised d := by
  by_cases hr : r = p
  · subst hr
    rw [(apply_self s r t e).cover]
    obtain h | h := hd.cover d
    · rw [h]; exact hs.cover r d
    · exact h.le
  · rw [(apply_other hr s t e).cover]
    exact hs.cover r d

/-- Whoever carries an event still does, unless this is the report of it. -/
theorem carries_statement (hd : Delivers s (s.task p) t e) {r : Pid} {d : Readiness}
    (hr : (s.task r).carries d = true) :
    ((e.apply p (s.setTask p t)).task r).carries d = true ∧
      ((e.apply p (s.setTask p t)).task r).cover d = (s.task r).cover d ∨
    r = p ∧ e = .report (s.task p).mask (s.task p).cover := by
  by_cases hrp : r = p
  · subst hrp
    have hself := apply_self s r t e
    rw [hself.carries,hself.cover]
    exact (hd.carries d hr).imp_right fun h => ⟨rfl,h⟩
  · have hother := apply_other hrp s t e
    rw [hother.carries,hother.cover]
    exact .inl ⟨hr,rfl⟩

theorem kept_statement (hs : Accounts s) (hd : Delivers s (s.task p) t e) (d : Readiness) :
    (e.apply p (s.setTask p t)).can d = true ∨
    (e.apply p (s.setTask p t)).reported d = (e.apply p (s.setTask p t)).raised d ∨
    ∃ r, ((e.apply p (s.setTask p t)).task r).carries d = true ∧
      ((e.apply p (s.setTask p t)).task r).cover d = (e.apply p (s.setTask p t)).raised d := by
  obtain ⟨hmore,hless⟩ := apply_reported hs hd d
  by_cases hraise : e = .raise d
  · left
    subst hraise
    simp [Effect.apply]
  rw [show (e.apply p (s.setTask p t)).raised d = s.raised d from apply_raised p (s.setTask p t) hraise]
  obtain hcan | heq | ⟨r,hr,heq⟩ := hs.kept d
  · by_cases hlower : e = .lower d
    · obtain ⟨hcarries,hcover⟩ := hd.lowers d hlower
      have hself := apply_self s p t e
      exact .inr (.inr ⟨p,(hself.carries d).trans hcarries,(congrFun hself.cover d).trans hcover⟩)
    · exact .inl (apply_can_of_ne p (s.setTask p t) hlower hcan)
  · exact .inr (.inl (le_antisymm hless (heq ▸ hmore)))
  · obtain ⟨hkeeps,hsame⟩ | ⟨rfl,rfl⟩ := carries_statement hd hr
    · exact .inr (.inr ⟨r,hkeeps,hsame.trans heq⟩)
    · right; left
      simp only [Task.carries, Bool.and_eq_true] at hr
      refine le_antisymm hless ?_
      rw [← heq]
      change _ ≤ ite _ _ _
      rw [if_pos hr.2]
      exact le_max_right _ _

theorem accounts_statement (hs : Accounts s) (hd : Delivers s (s.task p) t e) :
    Accounts (e.apply p (s.setTask p t)) where
  reported d := (apply_reported hs hd d).2.trans (raised_le p (s.setTask p t) e d)
  cover r d := (cover_statement hs hd r d).trans (raised_le p (s.setTask p t) e d)
  kept d := kept_statement hs hd d

/-- Steps that execute no statement carry on what is carried. -/
theorem accounts_setTask (hs : Accounts s) (hcover : ∀ d, t.cover d ≤ s.raised d)
    (hkeep : ∀ d, (s.task p).carries d = true → t.carries d = true ∧ t.cover d = (s.task p).cover d) :
    Accounts (s.setTask p t) := by
  refine ⟨hs.reported,fun r d => ?_,fun d => (hs.kept d).imp_right (Or.imp_right ?_)⟩
  · by_cases hr : r = p
    · subst hr; rw [setTask_self]; exact hcover d
    · rw [setTask_other s t hr]; exact hs.cover r d
  · rintro ⟨r,hr,heq⟩
    by_cases hrp : r = p
    · subst hrp
      obtain ⟨hcarries,hsame⟩ := hkeep d hr
      exact ⟨r,by rwa [setTask_self],by rw [setTask_self,hsame]; exact heq⟩
    · exact ⟨r,by rwa [setTask_other s t hrp],by rw [setTask_other s t hrp]; exact heq⟩

theorem accounts_step (h : step s a = some s') (hs : Accounts s) : Accounts s' := by
  obtain ⟨p,c,-,hidle,rfl⟩ | ⟨p,giveUp,t,e,-,hst,rfl⟩ | ⟨p,t,-,hn,rfl⟩ := step_cases h
  · refine accounts_setTask hs (fun d => Nat.zero_le _) fun d hd => ?_
    simp [Task.carries, hidle, Pc.carries] at hd
  · exact accounts_statement hs (statement_delivers hst)
  · refine accounts_setTask hs (fun d => ?_) fun d hd => ?_
    · rw [hn.cover]; exact hs.cover p d
    · exact ⟨(hn.carries d).trans hd,congrFun hn.cover d⟩

/-- No event is lost: its flag is up, or a poller that lowered the flag after the latest event carries it to
its report, or every event so far has been reported. -/
theorem events_reported {acts : List Act} (h : run step loaded acts = some s) (d : Readiness) :
    s.can d = true ∨ (∃ p, (s.task p).carries d = true ∧ (s.task p).cover d = s.raised d) ∨
      s.reported d = s.raised d := by
  have hs : Accounts s := run_invariant (fun _ _ _ => accounts_step) h accounts_loaded
  obtain hup | heq | hcarried := hs.kept d
  · exact .inl hup
  · exact .inr (.inr heq)
  · exact .inr (.inl hcarried)

end Runs

section Alone

/-- What the calls share, as the model of whole calls has it. -/
def Sys.shared (s : Sys) : Poll.State := ⟨s.sysfsValue,s.can .input,s.can .output⟩

variable {s : Sys} {p : Pid} {events : Mask} {pollin : Bool} {shared : Poll.State}

/-- The task is at this point of its poll, with this mask, and finds the globals so. -/
structure At (p : Pid) (events : Mask) (pc : Pc) (mask : Mask) (shared : Poll.State) (s : Sys) : Prop where
  call : (s.task p).call = .poll events
  pc : (s.task p).pc = pc
  mask : (s.task p).mask = mask
  shared : s.shared = shared

theorem run_one {t : Task} {e : Effect} (h : statement s (s.task p) false = some (t,e)) :
    run step s [.run p false] = some (e.apply p (s.setTask p t)) := by
  simp only [run, step, h, Option.map_some, Option.bind_some]

theorem passes_wait {mask : Mask} (h : At p events .pollWait mask shared s) :
    ∃ s', run step s [.run p false] = some s' ∧ At p events .testRead ⟨false,false⟩ shared s' := by
  have hst : statement s (s.task p) false = some ({s.task p with pc := .testRead, mask := ⟨false,false⟩},
      if (s.task p).polling then .none else .addWaitQueue) := by
    simp only [statement, h.call, doPoll, h.pc, globalmemPoll]
  refine ⟨_,run_one hst,?_⟩
  cases (s.task p).polling
  · constructor <;> simp [Effect.apply, Sys.setTask, h.call, ← h.shared, Sys.shared]
  · constructor <;> simp [Effect.apply, h.call, ← h.shared, Sys.shared, Sys.setTask]

/-- `if (can_read)`, with its body. -/
theorem passes_read (h : At p events .testRead ⟨false,false⟩ shared s) :
    ∃ n s', run step s (List.replicate n (.run p false)) = some s' ∧
      At p events .testWrite ⟨shared.canRead,false⟩ {shared with canRead := false} s' := by
  obtain ⟨hcall,hpc,hmask,rfl⟩ := h
  cases hflag : s.can .input with
  | false =>
    have hst : statement s (s.task p) false = some ((s.task p).goto .testWrite,.none) := by
      simp [statement, hcall, doPoll, hpc, globalmemPoll, hflag]
    refine ⟨1,_,run_one hst,?_⟩
    constructor <;> simp [Effect.apply, Task.goto, Sys.shared, Sys.setTask, hcall, hmask, hflag]
  | true =>
    have hst : statement s (s.task p) false = some ((s.task p).goto .clearRead,.none) := by
      simp [statement, hcall, doPoll, hpc, globalmemPoll, hflag]
    have hnext : statement (s.setTask p ((s.task p).goto .clearRead)) ((s.task p).goto .clearRead) false =
        some ({s.task p with
          pc := .testWrite, mask := ⟨true,false⟩
          cover := Function.update (s.task p).cover .input (s.raised .input)},.lower .input) := by
      simp [statement, Task.goto, hcall, doPoll, globalmemPoll, hmask, Sys.setTask]
    rw [← setTask_self s p ((s.task p).goto .clearRead)] at hnext
    refine ⟨2,_,run_append_eq_some.mpr ⟨_,run_one hst,run_one hnext⟩,?_⟩
    constructor <;> simp [Effect.apply, Sys.shared, Sys.setTask, hcall, hflag]

/-- `if (can_write)`, with its body. -/
theorem passes_write (h : At p events .testWrite ⟨pollin,false⟩ shared s) :
    ∃ n s', run step s (List.replicate n (.run p false)) = some s' ∧
      At p events .pollRet ⟨pollin,shared.canWrite⟩ {shared with canWrite := false} s' := by
  obtain ⟨hcall,hpc,hmask,rfl⟩ := h
  cases hflag : s.can .output with
  | false =>
    have hst : statement s (s.task p) false = some ((s.task p).goto .pollRet,.none) := by
      simp [statement, hcall, doPoll, hpc, globalmemPoll, hflag]
    refine ⟨1,_,run_one hst,?_⟩
    constructor <;> simp [Effect.apply, Task.goto, Sys.shared, Sys.setTask, hcall, hmask, hflag]
  | true =>
    have hst : statement s (s.task p) false = some ((s.task p).goto .clearWrite,.none) := by
      simp [statement, hcall, doPoll, hpc, globalmemPoll, hflag]
    have hnext : statement (s.setTask p ((s.task p).goto .clearWrite)) ((s.task p).goto .clearWrite) false =
        some ({s.task p with
          pc := .pollRet, mask := ⟨pollin,true⟩
          cover := Function.update (s.task p).cover .output (s.raised .output)},.lower .output) := by
      simp [statement, Task.goto, hcall, doPoll, globalmemPoll, hmask, Sys.setTask]
    rw [← setTask_self s p ((s.task p).goto .clearWrite)] at hnext
    refine ⟨2,_,run_append_eq_some.mpr ⟨_,run_one hst,run_one hnext⟩,?_⟩
    constructor <;> simp [Effect.apply, Sys.shared, Sys.setTask, hcall, hflag]

theorem globalmemPoll_eq (shared : Poll.State) : Poll.globalmemPoll shared =
    (⟨shared.canRead,shared.canWrite⟩,{shared with canRead := false, canWrite := false}) := by
  obtain ⟨value,canRead,canWrite⟩ := shared
  cases canRead <;> cases canWrite <;> rfl

/-- Executed alone, the statements of `globalmem_poll` are the whole call. -/
theorem poll_alone (hcall : (s.task p).call = .poll events) (hpc : (s.task p).pc = .pollWait) :
    ∃ n s', run step s (List.replicate n (.run p false)) = some s' ∧ (s'.task p).pc = .pollRet ∧
      ((s'.task p).mask,s'.shared) = Poll.globalmemPoll s.shared := by
  obtain ⟨a,ha,hread⟩ := passes_wait ⟨hcall,hpc,rfl,rfl⟩
  obtain ⟨m,b,hb,hwrite⟩ := passes_read hread
  obtain ⟨n,c,hc,hret⟩ := passes_write hwrite
  refine ⟨1+m+n,c,?_,hret.pc,?_⟩
  · rw [List.replicate_add,List.replicate_add]
    exact run_append_eq_some.mpr ⟨b,run_append_eq_some.mpr ⟨a,ha,hb⟩,hc⟩
  · rw [hret.mask,hret.shared,globalmemPoll_eq]

end Alone

/-- A poller for input falls asleep; a store wakes it, and its next round reports the event. -/
def woken : List Act :=
  .call 1 (.poll ⟨true,false⟩) :: List.replicate 7 (Act.run 1 false) ++
    .call 2 (.sysfsStore (some 7) 2) :: List.replicate 4 (Act.run 2 false) ++ List.replicate 7 (Act.run 1 false)

theorem sleepers_have_nothing_woken : ∃ s, run step loaded (woken.take 10) = some s ∧
    (s.task 1).pc = .selAsleep ∧ (s.can .input = false ∨ ∃ r, (s.task r).wakes .input = true) := by
  obtain ⟨s,hs,hp⟩ := exists_of_run_any step loaded (woken.take 10) (fun s => (s.task 1).pc = .selAsleep ∧
    (s.task 1).state = .interruptible ∧ (s.task 1).call.wants .input) (by decide)
  simp only [decide_eq_true_eq] at hp
  exact ⟨s,hs,hp.1,sleepers_have_nothing hs hp.1 hp.2.1 hp.2.2⟩

theorem events_reported_woken : ∃ s, run step loaded woken = some s ∧ (s.task 1).mask = ⟨true,false⟩ ∧
    s.raised .input = 1 ∧
    (s.can .input = true ∨ (∃ p, (s.task p).carries .input = true ∧ (s.task p).cover .input = s.raised .input) ∨
      s.reported .input = s.raised .input) := by
  obtain ⟨s,hs,hp⟩ := exists_of_run_any step loaded woken (fun s => (s.task 1).mask = ⟨true,false⟩ ∧
    s.raised .input = 1) (by decide)
  simp only [decide_eq_true_eq] at hp
  exact ⟨s,hs,hp.1,hp.2,events_reported hs .input⟩

end ExampleKernel.GlobalMem.PollQueue
