import ExampleKernel.GlobalFifo.Refinement

/-! No lost wake-up, for readers on `r_wait` and for writers on `w_wait`. While somebody waits on
a queue without having been woken or signalled, either there is still nothing to be woken for,
or the holder of the mutex is about to wake that queue. -/
namespace ExampleKernel.GlobalFifo
open ExampleKernel.Foundation ExampleKernel.Kernel

/-- The queue length at which a task waits on the queue: empty for readers, full for writers. -/
def Side.limit : Side → UInt32
  | .r => 0
  | .w => globalfifoSize

def Events.bit (ev : Events) : Side → Bool
  | .r => ev.pollin
  | .w => ev.pollout

/-- A poller that waits for the event of one side only. -/
def Events.only (ev : Events) : Side → Bool
  | .r => ev.pollin && !ev.pollout
  | .w => ev.pollout && !ev.pollin

/-- Program points of a poller between the test of one side and the end of its sleep. -/
def Pc.tested : Pc → Side → Bool
  | .pollTestW, .r => true
  | .pollUnlock, _ | .pollRet, _ | .selCheck, _ | .selSleep, _ | .selSchedule, _ | .selAsleep, _ => true
  | _, _ => false

/-- The task sleeps on the queue, or is on its way to sleep there, and has been neither woken nor
signalled since it found the queue at its limit. -/
def Task.starved (t : Task) (q : Side) : Bool :=
  !t.signalled && match t.call with
  | .read _ _ => q = .r && t.state = .interruptible
  | .write _ _ _ => q = .w && t.state = .interruptible
  | .ioctl _ => false
  | .poll ev => ev.only q && t.pc.tested q && !t.mask.bit q && !t.triggered &&
      (t.pc ≠ .selAsleep || t.state = .interruptible)

/-- The calls that wake the queue once they have moved data. -/
def Call.wakes : Call → Side → Bool
  | .read _ _, .w => true
  | .write _ _ _, .r => true
  | _, _ => false

/-- The task is about to wake the queue. -/
def Task.waking (t : Task) (q : Side) : Bool := t.pc = .wake && t.call.wakes q

/-- A sleep that began without a pending signal; pollers sleep in their second pass at the
latest, when the poll table is complete. -/
structure Task.patient (t : Task) : Prop where
  asleep : t.pc = .asleep ∨ t.pc = .selAsleep → t.state = .interruptible → t.signalled = false
  polling : t.pc = .selCheck ∨ t.pc = .selSleep ∨ t.pc = .selSchedule ∨ t.pc = .selAsleep →
    t.polling = true ∧ ∃ ev, t.call = .poll ev

/-- What a statement means for the tasks that wait on the queue. -/
structure Wakeful (q : Side) (dev : GlobalfifoDev) (t t' : Task) (e : Effect) : Prop where
  starts : t'.starved q = true → t.starved q = true ∨ dev.currentLen = q.limit
  wakes : t.waking q = true → e = .wakeUp q
  lengthens : ∀ len transfer, e = .setLen len transfer → t'.waking q = true ∨
    (dev.currentLen = q.limit → len = q.limit) ∨ t.pc = .ioctlClear ∧ q = .w ∧ t'.starved q = false

section Statements
variable {q : Side} {dev : GlobalfifoDev} {t t' : Task} {c : Choice} {e : Effect} {log : List Transfer}
attribute [local simp] Task.starved Task.waking Call.wakes Side.limit Pc.tested Events.bit

theorem read_wakeful {nonblock : Bool} {n : UInt64} (hcall : t.call = .read nonblock n)
    (hA : t.pc.holds = true → t.holding dev.currentLen dev.mem log)
    (h : ReadMove nonblock dev t c t' e) : Wakeful q dev t t' e := by
  cases h <;> rename_i hpc <;> simp only [Task.holding, hcall, hpc, Pc.holds, true_implies] at hA
  case account =>
    refine ⟨fun hs => .inl (by simpa [hcall] using hs),by simp [hpc],?_⟩
    intro len transfer he
    cases he
    cases q with
    | r =>
      have hle := hA.2.1
      refine .inr (.inl fun hlen => ?_)
      rw [Side.limit] at hlen ⊢
      have hzero : t.count.toNat = 0 := by simpa [hlen] using hle
      exact UInt32.toNat_inj.mp (by rw [len_sub_toNat hle]; simp [hlen])
    | w => exact .inl (by simp [hcall])
  all_goals cases q <;> constructor <;> simp_all

theorem write_wakeful {nonblock : Bool} {n : UInt64} {buf : ℕ → UInt8}
    (hcall : t.call = .write nonblock n buf)
    (hA : t.pc.holds = true → t.holding dev.currentLen dev.mem log)
    (h : WriteMove nonblock buf dev t c t' e) : Wakeful q dev t t' e := by
  cases h <;> rename_i hpc <;> simp only [Task.holding, hcall, hpc, Pc.holds, true_implies] at hA
  case account =>
    refine ⟨fun hs => .inl (by simpa [hcall] using hs),by simp [hpc],?_⟩
    intro len transfer he
    cases he
    cases q with
    | r => exact .inl (by simp [hcall])
    | w =>
      have hfit := hA.2.1
      refine .inr (.inl fun hlen => UInt32.toNat_inj.mp ?_)
      have hfull : dev.currentLen.toNat = capacity := congrArg UInt32.toNat hlen
      rw [len_add_toNat hfit]
      exact (by omega : dev.currentLen.toNat+t.count.toNat = capacity)
  all_goals cases q <;> constructor <;> simp_all

theorem ioctl_wakeful {cmd : UInt32} (hcall : t.call = .ioctl cmd)
    (h : IoctlMove cmd dev t t' e) : Wakeful q dev t t' e := by
  cases h <;> cases q <;> constructor <;> simp_all

theorem poll_wakeful {events : Events} (hcall : t.call = .poll events)
    (h : PollMove events dev t c t' e) : Wakeful q dev t t' e := by
  cases h <;> cases q <;> constructor <;> simp_all

/-- What every statement of every call means for the waiting tasks. -/
theorem statement_wakeful (hA : t.pc.holds = true → t.holding dev.currentLen dev.mem log)
    (h : statement dev t c = some (t',e)) : Wakeful q dev t t' e := by
  obtain ⟨_,_,hcall,h⟩ | ⟨_,_,_,hcall,h⟩ | ⟨_,hcall,h⟩ | ⟨_,hcall,h⟩ := statement_move h
  · exact read_wakeful hcall hA h
  · exact write_wakeful hcall hA h
  · exact ioctl_wakeful hcall h
  · exact poll_wakeful hcall h

theorem statement_patient (hp : t.patient) (h : statement dev t c = some (t',e)) : t'.patient := by
  have hasleep := hp.asleep
  have hpolling := hp.polling
  obtain ⟨_,_,hcall,h⟩ | ⟨_,_,_,hcall,h⟩ | ⟨_,hcall,h⟩ | ⟨_,hcall,h⟩ := statement_move h
  all_goals cases h <;> constructor <;> simp_all

end Statements

section Events
attribute [local simp] Task.starved Task.wakeFunction Task.signal

theorem enter_patient (t : Task) (c : Call) : (t.enter c).patient := by
  cases c <;> constructor <;> simp [Task.enter, entryPoint]

theorem enter_starved (t : Task) (c : Call) (q : Side) : (t.enter c).starved q = false := by
  cases c <;> cases q <;> simp [Task.enter, entryPoint, Pc.tested]

theorem wakeFunction_starved (t : Task) (q : Side) : t.wakeFunction.starved q = false := by
  cases hcall : t.call <;> simp [hcall]

variable {t t' : Task}

theorem Nudge.patient (h : Nudge t t') (hp : t.patient) : t'.patient := by
  obtain ⟨hasleep,hpolling⟩ := hp
  cases h <;> constructor <;> simp_all

/-- A nudge starves nobody who was not starved before. -/
theorem Nudge.starved (h : Nudge t t') {q : Side} (hd : t.state = .interruptible → t.pc.dozes = true)
    (hs : t'.starved q = true) : t.starved q = true := by
  cases h with
  | refl => exact hs
  | wakeFunction => rw [wakeFunction_starved] at hs; contradiction
  | signal => simp at hs
  | handleSignal hpc =>
    cases hcall : t.call <;> simp_all [Pc.tested, Pc.dozes]
  | timeout hpc =>
    cases hcall : t.call <;> simp_all

theorem Nudge.waking (h : Nudge t t') (q : Side) : t'.waking q = t.waking q := by
  simp only [Task.waking, h.call, h.pc]

/-- Whoever is starved has its entry on the queue. -/
theorem queued_of_starved {q : Side} (hd : t.state = .interruptible → t.pc.dozes = true)
    (hp : t.patient) (hs : t.starved q = true) : t.queued q = true := by
  have hpolling := hp.polling
  cases hcall : t.call <;> cases hpc : t.pc <;>
    simp_all [Task.queued, Pc.queuedRw, Pc.queuedPoll, Pc.dozes, Pc.tested]

theorem not_starved_of_wakes {q : Side} (h : t.call.wakes q = true) : t.starved q = false := by
  cases hcall : t.call <;> cases q <;> simp_all [Call.wakes]

end Events

/-- Whoever is starved either has nothing to be woken for or is about to be woken. -/
def Alert (q : Side) (s : Sys) : Prop :=
  ∀ p, (s.task p).starved q = true → s.dev.currentLen = q.limit ∨
    ∃ r, s.dev.mutex = some r ∧ (s.task r).waking q = true

/-- `FIFO_CLEAR` takes the data away only while nobody is starved for room. -/
def ClearsUnwatched (s : Sys) : Act → Prop
  | .run p _ => (s.task p).pc = .ioctlClear → ∀ r, (s.task r).starved .w = false
  | _ => True

/-- A wake-up of the queue leaves nobody starved on it, except perhaps the waker itself. -/
theorem not_starved_of_wakeUp {s : Sys} {q : Side} (hl : LockInv s) {p r : Pid} (hrp : r ≠ p) (t : Task)
    (hp : (s.task r).patient) : (((Effect.wakeUp q).apply p (s.setTask p t)).task r).starved q = false := by
  simp only [Effect.apply, setTask_dev, setTask_other s t hrp]
  split_ifs with hmem
  · exact wakeFunction_starved _ q
  · rw [← Bool.not_eq_true]
    intro hs
    exact hmem ((mem_wait_iff hl r q).mpr (queued_of_starved (hl.dozes r) hp hs))

theorem alert_statement {s : Sys} {q : Side} (hl : LockInv s) (hd : DataInv s)
    (hp : ∀ p, (s.task p).patient) (ha : Alert q s) {p : Pid} {c : Choice} {t : Task} {e : Effect}
    (hC : q = .w → ClearsUnwatched s (.run p c)) (h : statement s.dev (s.task p) c = some (t,e)) :
    Alert q (e.apply p (s.setTask p t)) := by
  have hdis := statement_disciplined h
  have hw : Wakeful q s.dev (s.task p) t e :=
    statement_wakeful (fun hh => hd.held p ((hl.mutex p).mpr hh)) h
  have hself := apply_setTask_self p s t e
  intro r hr
  -- before the statement, `r` was starved already or has just found the queue at its limit
  have hbefore : (s.task r).starved q = true ∨ s.dev.currentLen = q.limit := by
    by_cases hrp : r = p
    · subst hrp
      refine hw.starts (hself.starved ?_ hr)
      exact fun hs => (hdis.dozes (hl.dozes r) hs)
    · exact .inl ((apply_setTask_other hrp s t e).starved (hl.dozes r) hr)
  have hlimit := hbefore.elim (ha r) .inl
  obtain ⟨hlen,-,-⟩ := apply_data p (s.setTask p t) e
  by_cases hwaking : (s.task p).waking q = true
  · -- the waker itself runs: everybody else is awake now, and the waker waits on no queue
    have hfed : t.call.wakes q = true := by
      rw [hdis.call]
      simp only [Task.waking, Bool.and_eq_true] at hwaking
      exact hwaking.2
    have hnot : ((e.apply p (s.setTask p t)).task r).starved q = false := by
      by_cases hrp : r = p
      · subst hrp
        rw [← Bool.not_eq_true]
        intro hs
        exact absurd (not_starved_of_wakes (by rw [hself.call]; exact hfed)) (by simp [hs])
      · rw [hw.wakes hwaking]
        exact not_starved_of_wakeUp hl hrp t (hp r)
    rw [hnot] at hr
    contradiction
  by_cases hset : ∃ len transfer, e = .setLen len transfer
  · obtain ⟨len,transfer,rfl⟩ := hset
    have hheld : s.dev.mutex = some p := (hl.mutex p).mpr (hdis.writes rfl)
    have hold : s.dev.currentLen = q.limit := by
      refine hlimit.resolve_right ?_
      rintro ⟨r',hr',hw'⟩
      rw [hheld,Option.some.injEq] at hr'
      exact hwaking (hr' ▸ hw')
    obtain hnext | hsame | ⟨hclear,rfl,hfed⟩ := hw.lengthens len transfer rfl
    · exact .inr ⟨p,hheld,by rw [hself.waking]; exact hnext⟩
    · exact .inl (hlen.trans (hsame hold))
    · have hnone := hC rfl hclear
      have hrp : r ≠ p := by
        rintro rfl
        have hs := hself.starved (fun hs => hdis.dozes (hl.dozes r) hs) hr
        rw [hfed] at hs
        contradiction
      have hs := (apply_setTask_other hrp s t (.setLen len transfer)).starved (hl.dozes r) hr
      rw [hnone r] at hs
      contradiction
  · have hkeep : e.lenAfter s.dev.currentLen = s.dev.currentLen := by
      cases e <;> first | rfl | exact absurd ⟨_,_,rfl⟩ hset
    refine hlimit.imp (hlen.trans hkeep).trans ?_
    rintro ⟨r',hr',hw'⟩
    have hrp : r' ≠ p := by rintro rfl; exact hwaking hw'
    refine ⟨r',?_,by rw [(apply_setTask_other hrp s t e).waking]; exact hw'⟩
    rw [apply_mutex,setTask_dev,mutexAfter_iff hl hdis,if_neg hrp]
    exact (hl.mutex r').mp hr'

theorem alert_step {s s' : Sys} {a : Act} {q : Side} (h : step s a = some s') (hl : LockInv s)
    (hd : DataInv s) (hp : ∀ p, (s.task p).patient) (hC : q = .w → ClearsUnwatched s a)
    (ha : Alert q s) : Alert q s' := by
  obtain ⟨p,c,-,hidle,rfl⟩ | ⟨p,c,t,e,rfl,hst,rfl⟩ | hq := step_cases h
  · intro r hr
    have hrp : r ≠ p := by
      rintro rfl
      rw [setTask_self,enter_starved] at hr
      contradiction
    rw [setTask_other s _ hrp] at hr
    refine (ha r hr).imp_right ?_
    rintro ⟨r',hr',hw⟩
    have hrp' : r' ≠ p := by
      rintro rfl
      simp [Task.waking, hidle] at hw
    exact ⟨r',hr',by rw [setTask_other s _ hrp']; exact hw⟩
  · exact alert_statement hl hd hp ha hC hst
  · intro r hr
    refine (ha r ((hq.task r).starved (hl.dozes r) hr)).imp (hq.currentLen.trans ·) ?_
    rintro ⟨r',hr',hw⟩
    exact ⟨r',hq.mutex.trans hr',by rw [(hq.task r').waking]; exact hw⟩

theorem patient_step {s s' : Sys} {a : Act} (h : step s a = some s')
    (hp : ∀ p, (s.task p).patient) (r : Pid) : (s'.task r).patient := by
  refine task_step (fun hn => hn.patient) h ?_ ?_ (hp r)
  · intro c _
    exact enter_patient _ c
  · intro c t e _ hst
    exact statement_patient (hp r) hst

/-- Everything that the wake-up argument keeps along a run. -/
structure WaitInv (q : Side) (s : Sys) : Prop where
  lock : LockInv s
  data : DataInv s
  patient : ∀ p, (s.task p).patient
  alert : Alert q s

theorem waitInv_load (q : Side) : WaitInv q load where
  lock := lockInv_load
  data := dataInv_load
  patient := fun _ => ⟨by simp [load, Task.rest],by simp [load, Task.rest]⟩
  alert := by
    intro p h
    simp [load, Task.rest, Task.starved] at h

theorem waitInv_step {s s' : Sys} {a : Act} {q : Side} (h : step s a = some s')
    (hC : q = .w → ClearsUnwatched s a) (hs : WaitInv q s) : WaitInv q s' where
  lock := lockInv_step h hs.lock
  data := dataInv_step h hs.lock hs.data
  patient := patient_step h hs.patient
  alert := alert_step h hs.lock hs.data hs.patient hC hs.alert

/-- Asleep on the queue, in `schedule` or in the poll core, and neither woken nor signalled. -/
def Task.sleepsOn (t : Task) (q : Side) : Bool :=
  t.state = .interruptible && match t.call with
  | .read _ _ => q = .r && t.pc = .asleep
  | .write _ _ _ => q = .w && t.pc = .asleep
  | .ioctl _ => false
  | .poll ev => ev.only q && t.pc = .selAsleep && !t.mask.bit q && !t.triggered

theorem starved_of_sleepsOn {t : Task} {q : Side} (hp : t.patient) (hs : t.sleepsOn q = true) :
    t.starved q = true := by
  have hasleep := hp.asleep
  cases hcall : t.call <;> simp_all [Task.sleepsOn, Task.starved, Pc.tested]

/-- With the mutex free, a sleeper that nobody has woken sleeps for a reason. -/
theorem limit_of_sleepsOn {s : Sys} {q : Side} (hs : WaitInv q s) (hfree : s.dev.mutex = none) {p : Pid}
    (hp : (s.task p).sleepsOn q = true) : s.dev.currentLen = q.limit := by
  refine (hs.alert p (starved_of_sleepsOn (hs.patient p) hp)).resolve_right ?_
  rintro ⟨r,hr,-⟩
  rw [hfree] at hr
  contradiction

theorem waitInv_reached {acts : List Act} {s : Sys} {q : Side} (h : Reached acts s)
    (hC : q = .w → Meets step ClearsUnwatched load acts) : WaitInv q s := by
  cases q with
  | r =>
    exact run_invariant (fun _ _ _ hst hs => waitInv_step hst (fun hq => by cases hq) hs) h (waitInv_load .r)
  | w =>
    exact run_invariant_of_meets (fun _ _ _ hst hc hs => waitInv_step hst (fun _ => hc) hs)
      (hC rfl) h (waitInv_load .w)

/-- No lost wake-up for readers: a sleeper on `r_wait` sleeps on an empty queue. -/
theorem no_lost_wakeup_of_readers {acts : List Act} {s : Sys} (h : Reached acts s)
    (hfree : s.dev.mutex = none) {p : Pid} (hp : (s.task p).sleepsOn .r = true) : s.dev.currentLen = 0 :=
  limit_of_sleepsOn (waitInv_reached h (fun hq => by cases hq)) hfree hp

/-- A reader and a poller for input asleep on the empty queue. -/
theorem no_lost_wakeup_of_readers_asleep : ∃ acts s, Reached acts s ∧
    (s.task 1).sleepsOn .r = true ∧ s.dev.currentLen = 0 := by
  obtain ⟨s,hs,hp⟩ := exists_of_run_any step load
    (.call 1 (.read false 8) :: List.replicate 6 (.run 1 .done) ++
      .call 2 (.poll ⟨true,false⟩) :: List.replicate 10 (.run 2 .done))
    (fun s => s.dev.mutex = none ∧ (s.task 1).sleepsOn .r ∧ (s.task 2).sleepsOn .r) (by decide)
  simp only [decide_eq_true_eq] at hp
  exact ⟨_,s,hs,hp.2.1,no_lost_wakeup_of_readers hs hp.1 hp.2.1⟩

/-- No lost wake-up for writers, in every run that clears the queue only unwatched. -/
theorem no_lost_wakeup_of_writers {acts : List Act} {s : Sys} (h : Reached acts s)
    (hC : Meets step ClearsUnwatched load acts) (hfree : s.dev.mutex = none) :
    (∀ p, (s.task p).sleepsOn .w = true → s.dev.currentLen = globalfifoSize) ∧
    ∀ p r, (s.task p).sleepsOn .w = true → (s.task r).sleepsOn .r = false := by
  have hw : WaitInv .w s := waitInv_reached h fun _ => hC
  have hr : WaitInv .r s := waitInv_reached h fun hq => by cases hq
  refine ⟨fun p hp => limit_of_sleepsOn hw hfree hp,fun p r hp => ?_⟩
  rw [← Bool.not_eq_true]
  intro hr'
  have hfull := limit_of_sleepsOn hw hfree hp
  rw [limit_of_sleepsOn hr hfree hr'] at hfull
  contradiction

/-- No clear is under way at the step. -/
def clearsNothing (s : Sys) : Act → Bool
  | .run p _ => (s.task p).pc ≠ .ioctlClear
  | _ => true

theorem clearsUnwatched_of_clearsNothing (s : Sys) (a : Act) (h : clearsNothing s a = true) :
    ClearsUnwatched s a := by
  cases a <;> simp_all [clearsNothing, ClearsUnwatched]

/-- A writer asleep on the full queue, in a run without clears. -/
theorem no_lost_wakeup_of_writers_asleep : ∃ acts s, Reached acts s ∧
    (s.task 2).sleepsOn .w = true ∧ s.dev.currentLen = globalfifoSize := by
  obtain ⟨s,hs,hp⟩ := exists_of_run_any step load
    (.call 1 (.write false 4096 fun _ => 7) :: List.replicate 12 (.run 1 .done) ++
      .call 2 (.write false 1 fun _ => 7) :: List.replicate 6 (.run 2 .done))
    (fun s => s.dev.mutex = none ∧ (s.task 2).sleepsOn .w) (by decide)
  simp only [decide_eq_true_eq] at hp
  have hC := meets_of_check _ clearsUnwatched_of_clearsNothing
    (by decide : check step clearsNothing load (.call 1 (.write false 4096 fun _ => 7) ::
      List.replicate 12 (.run 1 .done) ++ .call 2 (.write false 1 fun _ => 7) ::
      List.replicate 6 (.run 2 .done)) = true)
  exact ⟨_,s,hs,hp.2,(no_lost_wakeup_of_writers hs hC hp.1).1 2 hp.2⟩

/-- `FIFO_CLEAR` empties the full queue and leaves the writer asleep. -/
theorem clear_forgets_writers : ¬ ∀ acts s, Reached acts s → s.dev.mutex = none →
    ∀ p, (s.task p).sleepsOn .w = true → s.dev.currentLen = globalfifoSize := by
  intro h
  obtain ⟨s,hs,hp⟩ := exists_of_run_any step load
    (.call 1 (.write false 4096 fun _ => 7) :: List.replicate 12 (.run 1 .done) ++
      .call 2 (.write false 1 fun _ => 7) :: List.replicate 6 (.run 2 .done) ++
      .call 3 (.ioctl fifoClear) :: List.replicate 5 (.run 3 .done))
    (fun s => s.dev.mutex = none ∧ (s.task 2).sleepsOn .w ∧ s.dev.currentLen = 0) (by decide)
  simp only [decide_eq_true_eq] at hp
  have hfull := h _ s hs hp.1 2 hp.2.1
  rw [hp.2.2] at hfull
  contradiction

/-- A poller about to call `schedule` is still interruptible, unless it was woken or signalled. -/
def Task.primed (t : Task) : Prop :=
  t.pc = .selSchedule → t.state = .interruptible ∨ t.triggered = true ∨ t.signalled = true

theorem statement_primed {dev : GlobalfifoDev} {t t' : Task} {c : Choice} {e : Effect}
    (h : statement dev t c = some (t',e)) : t'.primed := by
  obtain ⟨_,_,-,h⟩ | ⟨_,_,_,-,h⟩ | ⟨_,-,h⟩ | ⟨_,-,h⟩ := statement_move h
  all_goals cases h <;> simp_all [Task.primed]

theorem Nudge.primed {t t' : Task} (h : Nudge t t') (hp : t.primed) : t'.primed := by
  cases h <;> simp_all [Task.primed, Task.wakeFunction, Task.signal]

theorem primed_step {s s' : Sys} {a : Act} (h : step s a = some s') (hp : ∀ p, (s.task p).primed)
    (r : Pid) : (s'.task r).primed := by
  refine task_step (fun hn => hn.primed) h ?_ ?_ (hp r)
  · intro c _
    cases c <;> simp [Task.primed, Task.enter, entryPoint]
  · intro c t e _ hst
    exact statement_primed hst

/-- The steps that a waiting task is away from its sleep. -/
def Pc.awake : Pc → ℕ
  | .pollRet => 4
  | .selCheck => 3
  | .selSleep => 2
  | .selSchedule | .schedule => 1
  | _ => 0

/-- A task starved for room, without the mutex, sleeps or comes one step nearer to its sleep. -/
theorem starved_statement (dev : GlobalfifoDev) {t : Task} (hs : t.starved .w = true) (hp : t.patient)
    (hprimed : t.primed) (hd : t.state = .interruptible → t.pc.dozes = true) (hh : t.pc.holds = false) :
    t.sleepsOn .w = true ∨ ∃ t', statement dev t .done = some (t',.none) ∧ t'.starved .w = true ∧
      t'.pc.holds = false ∧ t'.pc.awake < t.pc.awake := by
  have hpolling := hp.polling
  cases hcall : t.call <;> cases hpc : t.pc <;>
    simp_all [Task.starved, Task.sleepsOn, Pc.tested, Pc.dozes, Pc.holds, statement, globalfifoWrite, doPoll,
      Pc.awake, enterSchedule, Task.goto, Events.bit, Events.only, Task.primed]

theorem primed_reached {acts : List Act} {s : Sys} (h : Reached acts s) (p : Pid) : (s.task p).primed :=
  run_invariant (I := fun s => ∀ p, (s.task p).primed) (fun _ _ _ hst hs => primed_step hst hs) h
    (fun _ => by simp [load, Task.rest, Task.primed]) p

/-- Left alone, a task starved for room falls asleep. -/
theorem falls_asleep {acts : List Act} {s : Sys} (h : Reached acts s) {r : Pid}
    (hs : (s.task r).starved .w = true) (hh : (s.task r).pc.holds = false) :
    ∃ bs t, run step s bs = some t ∧ t.dev = s.dev ∧ (t.task r).sleepsOn .w = true := by
  induction hn : (s.task r).pc.awake using Nat.strong_induction_on generalizing acts s with
  | h n ih =>
    have hpatient := (waitInv_reached (q := .r) h fun hq => by cases hq).patient r
    obtain hsleeps | ⟨t',hst,hs',hh',hlt⟩ :=
      starved_statement s.dev hs hpatient (primed_reached h r) ((lockInv_reached h).dozes r) hh
    · exact ⟨[],s,rfl,rfl,hsleeps⟩
    · have hstep : step s (.run r .done) = some (s.setTask r t') := by simp [step, hst, Effect.apply]
      have hreached : Reached (acts ++ [.run r .done]) (s.setTask r t') := run_concat_eq_some.mpr ⟨s,h,hstep⟩
      obtain ⟨bs,t,ht,hdev,hsleeps⟩ := ih _ (hn ▸ hlt) hreached (by rwa [setTask_self]) (by rwa [setTask_self])
        (by rw [setTask_self])
      exact ⟨.run r .done :: bs,t,run_cons_eq_some.mpr ⟨_,hstep,ht⟩,hdev,hsleeps⟩

/-- A clear that takes the data away from under somebody starved for room can be continued to a
state in which that task sleeps on the empty queue. -/
theorem sleeps_after_clear {acts : List Act} {s s' : Sys} {p : Pid} {c : Choice} (h : Reached acts s)
    (hstep : step s (.run p c) = some s') (hC : ¬ ClearsUnwatched s (.run p c)) :
    ∃ bs t r, run step s' bs = some t ∧ t.dev.mutex = none ∧ (t.task r).sleepsOn .w = true ∧
      t.dev.currentLen = 0 := by
  obtain ⟨hpc,r,hr⟩ : (s.task p).pc = .ioctlClear ∧ ∃ r, (s.task r).starved .w = true := by
    simpa [ClearsUnwatched] using hC
  have hl := lockInv_reached h
  have hholds : s.dev.mutex = some p := (hl.mutex p).mpr (by rw [hpc]; rfl)
  have hrp : r ≠ p := by
    rintro rfl
    have hdozes := hl.dozes r
    cases hcall : (s.task r).call <;> simp_all [Task.starved, Pc.tested, Pc.dozes]
  have hrh : (s.task r).pc.holds = false := by
    rw [← Bool.not_eq_true,← hl.mutex r,hholds]
    exact fun heq => hrp (Option.some.inj heq).symm
  obtain ⟨cmd,hcall⟩ : ∃ cmd, (s.task p).call = .ioctl cmd := by
    cases hcall : (s.task p).call <;>
      simp [step, statement, hcall, hpc, globalfifoRead, globalfifoWrite, doPoll, globalfifoPoll] at hstep ⊢
  -- the holder clears the array and unlocks
  obtain ⟨u,hu,hfree,hempty,hother⟩ : ∃ u, run step s' [.run p .done,.run p .done] = some u ∧
      u.dev.mutex = none ∧ u.dev.currentLen = 0 ∧ u.task r = s.task r := by
    simp only [step, statement, hcall, hpc, globalfifoIoctl, Option.map_some, Option.some.injEq] at hstep
    subst hstep
    refine ⟨_,by simp [run, step, statement, hcall, globalfifoIoctl, Effect.apply, Task.goto, Task.exit]; rfl,
      rfl,rfl,?_⟩
    simp [Sys.setTask, Function.update_of_ne hrp]
  have hreached : Reached (acts ++ ([.run p c] ++ [.run p .done,.run p .done])) u :=
    run_append_eq_some.mpr ⟨s,h,run_append_eq_some.mpr ⟨s',run_cons_eq_some.mpr ⟨s',hstep,rfl⟩,hu⟩⟩
  obtain ⟨bs,t,ht,hdev,hsleeps⟩ := falls_asleep hreached (by rwa [hother]) (by rwa [hother])
  exact ⟨_,t,r,run_append_eq_some.mpr ⟨u,hu,ht⟩,by rw [hdev,hfree],hsleeps,by rw [hdev,hempty]⟩

end ExampleKernel.GlobalFifo
