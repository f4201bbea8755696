import ExampleKernel.GlobalFifo.Moves

/-! What each statement does to the lock, the wait queues and the task state, and the
invariants of every interleaving that follow from it: a program point alone decides whether
its task holds the mutex, and how many entries it has on each wait queue. -/
namespace ExampleKernel.GlobalFifo
open ExampleKernel.Foundation ExampleKernel.Kernel

attribute [simp] Task.goto Task.exit

/-- Program points at which the task holds the mutex. -/
def Pc.holds : Pc → Bool
  | .addWait | .test | .sleep | .unlock | .clamp | .copy | .shift | .account | .wake | .sigio
  | .out | .ioctlClear | .ioctlMemset | .ioctlUnlock | .pollWaitR | .pollWaitW | .pollTestR
  | .pollTestW | .pollUnlock => true
  | _ => false

/-- Program points that call `mutex_lock`. -/
def Pc.locks : Pc → Bool
  | .lock | .relock | .ioctlLock | .pollLock => true
  | _ => false

/-- Program points that call `mutex_unlock`. -/
def Pc.unlocks : Pc → Bool
  | .unlock | .out | .ioctlUnlock | .pollUnlock => true
  | _ => false

/-- Program points that call `schedule` or are inside it. -/
def Pc.schedules : Pc → Bool
  | .schedule | .asleep | .selSchedule | .selAsleep => true
  | _ => false

/-- Program points between the change of the task state and the return from `schedule`. -/
def Pc.dozes : Pc → Bool
  | .unlock | .schedule | .asleep | .selSchedule | .selAsleep => true
  | _ => false

/-- Program points of a read or write between `add_wait_queue` and `remove_wait_queue`. -/
def Pc.queuedRw : Pc → Bool
  | .test | .sleep | .unlock | .schedule | .asleep | .resume | .relock | .clamp | .copy | .shift
  | .account | .wake | .sigio | .out | .removeWait => true
  | _ => false

/-- A poll table keeps its entries from the first `poll_wait` until the poll core frees them. -/
def Pc.queuedPoll (polling : Bool) : Pc → Side → Bool
  | .pollWaitW, .r => true
  | .pollTestR, _ | .pollTestW, _ | .pollUnlock, _ | .pollRet, _ => true
  | .pollLock, _ | .pollWaitR, _ | .pollWaitW, .w | .selCheck, _ | .selSleep, _ => polling
  | .selSchedule, _ | .selAsleep, _ | .selAgain, _ | .selFreeR, _ | .selFreeW, .w => polling
  | _, _ => false

/-- Whether the frame has an entry on the wait queue `q`. -/
def Task.queued (t : Task) (q : Side) : Bool :=
  match t.call with
  | .read _ _ => q = .r && t.pc.queuedRw
  | .write _ _ _ => q = .w && t.pc.queuedRw
  | .ioctl _ => false
  | .poll _ => t.pc.queuedPoll t.polling q

def Effect.holdsAfter (before : Bool) : Effect → Bool
  | .mutexLock => true
  | .mutexUnlock => false
  | _ => before

def Effect.mutexAfter (p : Pid) (before : Option Pid) : Effect → Option Pid
  | .mutexLock => some p
  | .mutexUnlock => Option.none
  | _ => before

def Effect.queuedAfter (q : Side) (before : Bool) : Effect → Bool
  | .addWaitQueue q' => if q' = q then true else before
  | .removeWaitQueue q' => if q' = q then false else before
  | _ => before

/-- The effect writes `current_len` or `mem`. -/
def Effect.writes : Effect → Bool
  | .store _ => true
  | .setLen _ _ => true
  | _ => false

theorem Pc.not_holds_of_locks {pc : Pc} (h : pc.locks = true) : pc.holds = false := by
  cases pc <;> first | rfl | cases h

theorem Pc.holds_of_unlocks {pc : Pc} (h : pc.unlocks = true) : pc.holds = true := by
  cases pc <;> first | rfl | cases h

theorem Pc.not_holds_of_schedules {pc : Pc} (h : pc.schedules = true) : pc.holds = false := by
  cases pc <;> first | rfl | cases h

/-- What every statement of every operation obeys, whatever the data. -/
structure Disciplined (dev : GlobalfifoDev) (t t' : Task) (e : Effect) : Prop where
  call : t'.call = t.call
  holds : t'.pc.holds = e.holdsAfter t.pc.holds
  locks : e = .mutexLock → dev.mutex = none ∧ t.pc.locks = true
  unlocks : e = .mutexUnlock → t.pc.unlocks = true
  writes : e.writes = true → t.pc.holds = true
  queued : ∀ q, t'.queued q = e.queuedAfter q (t.queued q)
  enqueues : ∀ q, e = .addWaitQueue q → t.queued q = false
  dozes : (t.state = .interruptible → t.pc.dozes = true) →
    t'.state = .interruptible → t'.pc.dozes = true

section Statements
attribute [local simp] Pc.holds Pc.locks Pc.unlocks Pc.dozes Pc.queuedRw Pc.queuedPoll Task.queued
  Effect.holdsAfter Effect.queuedAfter Effect.writes

theorem read_disciplined {nonblock : Bool} {n : UInt64} {dev : GlobalfifoDev} {t t' : Task}
    {c : Choice} {e : Effect} (hcall : t.call = .read nonblock n)
    (h : ReadMove nonblock dev t c t' e) : Disciplined dev t t' e := by
  cases h <;> rename_i hpc
  all_goals
    constructor
    case queued => intro q; cases q <;> simp [hcall, hpc]
    all_goals simp_all

theorem write_disciplined {nonblock : Bool} {n : UInt64} {buf : ℕ → UInt8} {dev : GlobalfifoDev}
    {t t' : Task} {c : Choice} {e : Effect} (hcall : t.call = .write nonblock n buf)
    (h : WriteMove nonblock buf dev t c t' e) : Disciplined dev t t' e := by
  cases h <;> rename_i hpc
  all_goals
    constructor
    case queued => intro q; cases q <;> simp [hcall, hpc]
    all_goals simp_all

theorem ioctl_disciplined {cmd : UInt32} {dev : GlobalfifoDev} {t t' : Task} {e : Effect}
    (hcall : t.call = .ioctl cmd) (h : IoctlMove cmd dev t t' e) : Disciplined dev t t' e := by
  cases h <;> constructor <;> simp_all

theorem poll_disciplined {events : Events} {dev : GlobalfifoDev} {t t' : Task} {c : Choice}
    {e : Effect} (hcall : t.call = .poll events) (h : PollMove events dev t c t' e) :
    Disciplined dev t t' e := by
  cases h <;> rename_i hpc
  all_goals
    constructor
    case queued => intro q; cases q <;> simp_all
    all_goals simp_all

end Statements

/-- Every statement of every call is disciplined. -/
theorem statement_disciplined {dev : GlobalfifoDev} {t t' : Task} {c : Choice} {e : Effect}
    (h : statement dev t c = some (t',e)) : Disciplined dev t t' e := by
  obtain ⟨_,_,hcall,h⟩ | ⟨_,_,_,hcall,h⟩ | ⟨_,hcall,h⟩ | ⟨_,hcall,h⟩ := statement_move h
  · exact read_disciplined hcall h
  · exact write_disciplined hcall h
  · exact ioctl_disciplined hcall h
  · exact poll_disciplined hcall h

/-- What an event that is not its own does to a task. -/
inductive Nudge (t : Task) : Task → Prop
  | refl : Nudge t t
  | wakeFunction : Nudge t t.wakeFunction
  | signal : Nudge t t.signal
  | handleSignal (h : t.pc = .idle) : Nudge t {t with signalled := false}
  | timeout (h : t.pc = .selAsleep) : Nudge t {t with state := .running}

section Nudge
variable {t t' : Task}

theorem Nudge.call (h : Nudge t t') : t'.call = t.call := by cases h <;> rfl
theorem Nudge.pc (h : Nudge t t') : t'.pc = t.pc := by cases h <;> rfl
theorem Nudge.count (h : Nudge t t') : t'.count = t.count := by cases h <;> rfl
theorem Nudge.ret (h : Nudge t t') : t'.ret = t.ret := by cases h <;> rfl
theorem Nudge.mask (h : Nudge t t') : t'.mask = t.mask := by cases h <;> rfl
theorem Nudge.polling (h : Nudge t t') : t'.polling = t.polling := by cases h <;> rfl
theorem Nudge.ubuf (h : Nudge t t') : t'.ubuf = t.ubuf := by cases h <;> rfl
theorem Nudge.seen (h : Nudge t t') : t'.seen = t.seen := by cases h <;> rfl

theorem Nudge.state (h : Nudge t t') (hs : t'.state = .interruptible) : t.state = .interruptible := by
  cases h <;> first | exact hs | cases hs

end Nudge

theorem Nudge.queued {t t' : Task} (h : Nudge t t') (q : Side) : t'.queued q = t.queued q := by
  simp only [Task.queued, h.call, h.pc, h.polling]

@[simp] theorem setTask_dev (s : Sys) (p : Pid) (t : Task) : (s.setTask p t).dev = s.dev := rfl
@[simp] theorem setTask_log (s : Sys) (p : Pid) (t : Task) : (s.setTask p t).log = s.log := rfl
@[simp] theorem setTask_self (s : Sys) (p : Pid) (t : Task) : (s.setTask p t).task p = t :=
  Function.update_self _ _ _

@[simp] theorem setTask_setTask (s : Sys) (p : Pid) (t t' : Task) :
    (s.setTask p t).setTask p t' = s.setTask p t' := by
  simp [Sys.setTask]

theorem setTask_other (s : Sys) {p r : Pid} (t : Task) (h : r ≠ p) :
    (s.setTask p t).task r = s.task r := Function.update_of_ne h _ _

/-- An effect nudges tasks and never moves one. -/
theorem apply_nudge (p : Pid) (s : Sys) (e : Effect) (r : Pid) :
    Nudge (s.task r) ((e.apply p s).task r) := by
  cases e with
  | wakeUp q =>
    simp only [Effect.apply]
    split_ifs <;> [exact .wakeFunction; exact .refl]
  | killFasync =>
    simp only [Effect.apply]
    split_ifs <;> [exact .signal; exact .refl]
  | _ => exact .refl

theorem apply_mutex (p : Pid) (s : Sys) (e : Effect) :
    (e.apply p s).dev.mutex = e.mutexAfter p s.dev.mutex := by
  cases e <;> rfl

theorem apply_count_other {p r : Pid} (hr : r ≠ p) (s : Sys) (e : Effect) (q : Side) :
    ((e.apply p s).dev.wait q).count r = (s.dev.wait q).count r := by
  cases e with
  | addWaitQueue q' =>
    by_cases hq : q = q'
    · subst hq; simp [Effect.apply, List.count_cons_of_ne (Ne.symm hr)]
    · simp [Effect.apply, Function.update_of_ne hq]
  | removeWaitQueue q' =>
    by_cases hq : q = q'
    · subst hq; simp [Effect.apply, List.count_erase_of_ne hr]
    · simp [Effect.apply, Function.update_of_ne hq]
  | _ => rfl

/-- An entry that is added once and removed once is on its queue exactly in between. -/
theorem apply_count_self (p : Pid) (s : Sys) (e : Effect) (q : Side) {b : Bool}
    (hb : (s.dev.wait q).count p = b.toNat) (hfresh : e = .addWaitQueue q → b = false) :
    ((e.apply p s).dev.wait q).count p = (e.queuedAfter q b).toNat := by
  cases e with
  | addWaitQueue q' =>
    by_cases hq : q' = q
    · subst hq; simp [Effect.apply, Effect.queuedAfter, hb, hfresh rfl]
    · simp [Effect.apply, Effect.queuedAfter, Function.update_of_ne (Ne.symm hq), hq, hb]
  | removeWaitQueue q' =>
    by_cases hq : q' = q
    · subst hq; cases b <;> simp [Effect.apply, Effect.queuedAfter, hb]
    · simp [Effect.apply, Effect.queuedAfter, Function.update_of_ne (Ne.symm hq), hq, hb]
  | _ => exact hb

/-- Events outside the driver leave the shared state alone and nudge tasks. -/
structure Quiet (s s' : Sys) : Prop where
  mutex : s'.dev.mutex = s.dev.mutex
  currentLen : s'.dev.currentLen = s.dev.currentLen
  mem : s'.dev.mem = s.dev.mem
  wait : s'.dev.wait = s.dev.wait
  log : s'.log = s.log
  sigio : s'.sigio = s.sigio
  task : ∀ p, Nudge (s.task p) (s'.task p)

theorem quiet_setTask (s : Sys) (p : Pid) {t : Task} (h : Nudge (s.task p) t) :
    Quiet s (s.setTask p t) := by
  refine ⟨rfl,rfl,rfl,rfl,rfl,rfl,fun r => ?_⟩
  by_cases hr : r = p
  · subst hr; simpa using h
  · rw [setTask_other s t hr]; exact .refl

/-- Everything a step can be: a new call, one statement of a call, or an outside event. -/
theorem step_cases {s s' : Sys} {a : Act} (h : step s a = some s') :
    (∃ p c, a = .call p c ∧ (s.task p).pc = .idle ∧ s' = s.setTask p ((s.task p).enter c)) ∨
    (∃ p c t e, a = .run p c ∧ statement s.dev (s.task p) c = some (t,e) ∧
      s' = e.apply p (s.setTask p t)) ∨ Quiet s s' := by
  cases a with
  | call p c =>
    simp only [step, Option.ite_none_right_eq_some, Option.some.injEq] at h
    exact .inl ⟨p,c,rfl,h.1,h.2.symm⟩
  | run p c =>
    simp only [step, Option.map_eq_some_iff] at h
    obtain ⟨⟨t,e⟩,hst,rfl⟩ := h
    exact .inr (.inl ⟨p,c,t,e,rfl,hst,rfl⟩)
  | signal p =>
    cases h
    exact .inr (.inr (quiet_setTask s p .signal))
  | handleSignal p =>
    simp only [step, Option.ite_none_right_eq_some, Option.some.injEq] at h
    obtain ⟨hpc,rfl⟩ := h
    exact .inr (.inr (quiet_setTask s p (.handleSignal hpc)))
  | timeout p =>
    simp only [step, Option.ite_none_right_eq_some, Option.some.injEq] at h
    obtain ⟨hpc,rfl⟩ := h
    exact .inr (.inr (quiet_setTask s p (.timeout hpc)))
  | setOwner f p => cases h; exact .inr (.inr ⟨rfl,rfl,rfl,rfl,rfl,rfl,fun _ => .refl⟩)
  | fasync f mode => cases h; exact .inr (.inr ⟨rfl,rfl,rfl,rfl,rfl,rfl,fun _ => .refl⟩)
  | release f => cases h; exact .inr (.inr ⟨rfl,rfl,rfl,rfl,rfl,rfl,fun _ => .refl⟩)

/-- After a statement, the acting task is at the statement's successor and every other task is
where it was, nudges aside. -/
theorem apply_setTask_self (p : Pid) (s : Sys) (t : Task) (e : Effect) :
    Nudge t ((e.apply p (s.setTask p t)).task p) := by
  simpa using apply_nudge p (s.setTask p t) e p

theorem apply_setTask_other {p r : Pid} (hr : r ≠ p) (s : Sys) (t : Task) (e : Effect) :
    Nudge (s.task r) ((e.apply p (s.setTask p t)).task r) := by
  simpa [setTask_other s t hr] using apply_nudge p (s.setTask p t) e r

/-- What a task can tell from its own frame survives every step that its own calls and statements respect. -/
theorem task_step {P : Task → Prop} (hnudge : ∀ {t t'}, Nudge t t' → P t → P t') {s s' : Sys} {a : Act} {p : Pid}
    (h : step s a = some s') (hcall : ∀ c, a = .call p c → P ((s.task p).enter c))
    (hself : ∀ c t e, a = .run p c → statement s.dev (s.task p) c = some (t,e) → P t)
    (hs : P (s.task p)) : P (s'.task p) := by
  obtain ⟨r,c,rfl,-,rfl⟩ | ⟨r,c,t,e,rfl,hst,rfl⟩ | hq := step_cases h
  · by_cases hp : p = r
    · subst hp; rw [setTask_self]; exact hcall c rfl
    · rwa [setTask_other s _ hp]
  · by_cases hp : p = r
    · subst hp; exact hnudge (apply_setTask_self p s t e) (hself c t e rfl hst)
    · exact hnudge (apply_setTask_other hp s t e) hs
  · exact hnudge (hq.task p) hs

/-- Without a new call a task stays in the one that it is in. -/
theorem call_run {p : Pid} {later : List Act} {s s' : Sys} (hsame : ∀ c, .call p c ∉ later)
    (h : run step s later = some s') : (s'.task p).call = (s.task p).call := by
  induction later generalizing s with
  | nil => cases h; rfl
  | cons a later ih =>
    obtain ⟨m,hm,hrest⟩ := run_cons_eq_some.mp h
    rw [ih (fun c hc => hsame c (List.mem_cons_of_mem _ hc)) hrest]
    refine task_step (P := fun t => t.call = (s.task p).call) (fun hn hc => hn.call.trans hc) hm ?_ ?_ rfl
    · rintro c rfl
      exact absurd List.mem_cons_self (hsame c)
    · intro c t e _ hst
      exact (statement_disciplined hst).call

end ExampleKernel.GlobalFifo
