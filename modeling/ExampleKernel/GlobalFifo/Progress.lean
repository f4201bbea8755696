import ExampleKernel.Foundation.Potential
import ExampleKernel.GlobalFifo.History
import ExampleKernel.GlobalFifo.Wakeup

/-! Liveness of globalfifo under every scheduler. The statements of a run are paid for by its calls and
signals, so that no process spins; where no statement is possible, nobody is left without a reason. -/
namespace ExampleKernel.GlobalFifo
open ExampleKernel.Foundation ExampleKernel.Kernel

/-- More than the statements that any task executes before it is idle, asleep or woken by another. -/
def workLimit : ℕ := 26

/-- How many statements a read or write executes before it is idle or asleep, if nobody else moves. -/
def Task.rwWork (t : Task) : ℕ :=
  match t.pc with
  | .lock => if t.signalled then 21 else 13
  | .addWait => if t.signalled then 20 else 12
  | .relock => if t.signalled then 20 else 12
  | .test => if t.signalled then 19 else 11
  | .sleep => if t.signalled then 18 else 3
  | .unlock => if t.state = .running ∨ t.signalled then 17 else 2
  | .schedule => if t.state = .running ∨ t.signalled then 16 else 1
  | .asleep => if t.state = .running then 15 else 0
  | .resume => 14
  | .clamp => 10
  | .copy => 9
  | .shift => 8
  | .account => 7
  | .wake => 6
  | .sigio => 5
  | .out => 4
  | .removeWait => 3
  | .setRunning => 2
  | .ret => 1
  | _ => 0

/-- The same for the poll core; a recorded wake-up is good for one more round. -/
def Task.pollWork (t : Task) : ℕ :=
  let check := if t.triggered ∧ t.signalled = false then 14 else 3
  match t.pc with
  | .pollLock => check+7
  | .pollWaitR => check+6
  | .pollWaitW => check+5
  | .pollTestR => check+4
  | .pollTestW => check+3
  | .pollUnlock => check+2
  | .pollRet => check+1
  | .selCheck => check
  | .selSleep => if t.triggered ∨ t.signalled then 13 else 2
  | .selSchedule => if t.state = .running ∨ t.triggered ∨ t.signalled then 12 else 1
  | .selAsleep => if t.state = .running then 12 else 0
  | .selAgain => 11
  | .selFreeR => 2
  | .selFreeW => 1
  | _ => 0

def Task.work (t : Task) : ℕ :=
  match t.call with
  | .read _ _ | .write _ _ _ => t.rwWork
  | .poll _ => t.pollWork
  | .ioctl _ =>
    match t.pc with
    | .ioctlSwitch => 6
    | .ioctlLock => 5
    | .ioctlClear => 4
    | .ioctlMemset => 3
    | .ioctlUnlock => 2
    | .ret => 1
    | _ => 0

/-- The wake-ups and notifications that a call has ahead of it. -/
def Task.stirs (t : Task) : ℕ :=
  match t.pc with
  | .lock | .addWait | .relock | .test | .sleep | .unlock | .schedule | .asleep | .resume | .clamp | .copy | .shift
  | .account | .wake =>
    match t.call with
    | .read _ _ => 1
    | .write _ _ _ => 2
    | _ => 0
  | .sigio => 1
  | _ => 0

/-- Whether an effect reaches other tasks. -/
def Effect.stirs : Effect → ℕ
  | .wakeUp _ | .killFasync => 1
  | _ => 0

theorem work_lt (t : Task) : t.work < workLimit := by
  unfold Task.work Task.rwWork Task.pollWork workLimit
  cases t.call <;> cases t.pc <;> dsimp only <;> (repeat' split) <;> omega

theorem work_of_idle {t : Task} (h : t.pc = .idle) : t.work = 0 ∧ t.stirs = 0 := by
  unfold Task.work Task.rwWork Task.pollWork Task.stirs
  cases t.call <;> simp [h]

theorem Nudge.stirs {t t' : Task} (h : Nudge t t') : t'.stirs = t.stirs := by
  unfold Task.stirs
  rw [h.call,h.pc]

theorem enter_stirs (t : Task) (c : Call) : (t.enter c).stirs ≤ 2 := by
  cases c <;> simp [Task.stirs, Task.enter, entryPoint]

/-- The calls are made by processes in `P`, and with a signal pending the poll core breaks out of its loop
instead of going to sleep. -/
def Regular (P : Finset Pid) (s : Sys) : Act → Prop
  | .call p _ => p ∈ P
  | .run p c => (s.task p).signalled = true → ∀ t e, statement s.dev (s.task p) c = some (t,e) → t.pc ≠ .selSleep
  | _ => True

section Statements
variable {dev : GlobalfifoDev} {t t' : Task} {c : Choice} {e : Effect}

/-- A statement is one step less to go, and a wake-up or notification one less to come. -/
theorem statement_pays (hb : t.signalled = true → t'.pc ≠ .selSleep) (h : statement dev t c = some (t',e)) :
    t'.work < t.work ∧ t'.stirs+e.stirs ≤ t.stirs := by
  obtain ⟨_,_,hcall,h⟩ | ⟨_,_,_,hcall,h⟩ | ⟨_,hcall,h⟩ | ⟨_,hcall,h⟩ := statement_move h
  all_goals
    cases h <;> rename_i hpc <;>
      simp_all [Task.work, Task.rwWork, Task.pollWork, Task.stirs, Effect.stirs]
  all_goals split_ifs <;> omega

end Statements

/-- The statements that the calls of the processes in `P` have ahead of them, where each wake-up and each
notification may set all of them going again. -/
def potential (P : Finset Pid) (s : Sys) : ℕ :=
  (∑ p ∈ P, (s.task p).work)+workLimit*P.card*∑ p ∈ P, (s.task p).stirs

/-- What an event of a run brings in: a call its own statements and two rounds of all the others, a signal
or a timeout one round of its process. -/
def Act.credit (n : ℕ) : Act → ℕ
  | .call _ _ => workLimit+workLimit*n*2
  | .signal _ | .timeout _ => workLimit
  | _ => 0

def Act.isStatement : Act → Bool
  | .run _ _ => true
  | _ => false

section Runs
variable {P : Finset Pid} {s s' : Sys} {p : Pid} {a : Act}

/-- An effect that reaches no other task leaves the frames alone. -/
theorem apply_task {e : Effect} (h : e.stirs = 0) (s : Sys) : (e.apply p s).task = s.task := by
  cases e <;> first | rfl | cases h

theorem potential_statement {c : Choice} {t : Task} {e : Effect} (hp : p ∈ P)
    (hb : (s.task p).signalled = true → t.pc ≠ .selSleep)
    (hst : statement s.dev (s.task p) c = some (t,e)) :
    potential P (e.apply p (s.setTask p t)) < potential P s := by
  obtain ⟨hwork,hstirs⟩ := statement_pays hb hst
  have hother : ∀ r, r ≠ p → ((e.apply p (s.setTask p t)).task r).stirs = (s.task r).stirs := fun r hr =>
    (apply_setTask_other hr s t e).stirs
  have hself : ((e.apply p (s.setTask p t)).task p).stirs = t.stirs := (apply_setTask_self p s t e).stirs
  unfold potential
  obtain he | he : e.stirs = 0 ∨ e.stirs = 1 := by cases e <;> simp [Effect.stirs]
  · -- nobody else moves
    have hfall : ∑ r ∈ P, ((e.apply p (s.setTask p t)).task r).work < ∑ r ∈ P, (s.task r).work := by
      rw [apply_task he]
      refine sum_falls hp ?_ fun r hr => ?_
      · rwa [setTask_self]
      · rw [setTask_other s t hr]
    have hle : ∑ r ∈ P, ((e.apply p (s.setTask p t)).task r).stirs ≤ ∑ r ∈ P, (s.task r).stirs := by
      have := sum_grows (P := P) (k := 0) (show ((e.apply p (s.setTask p t)).task p).stirs ≤ (s.task p).stirs+0 by
        omega) hother
      omega
    have := Nat.mul_le_mul_left (workLimit*P.card) hle
    omega
  · -- everybody may have to move, but one wake-up is spent
    have hfall : ∑ r ∈ P, ((e.apply p (s.setTask p t)).task r).stirs < ∑ r ∈ P, (s.task r).stirs :=
      sum_falls hp (by omega) hother
    have hall : ∑ r ∈ P, ((e.apply p (s.setTask p t)).task r).work < workLimit*P.card := by
      calc ∑ r ∈ P, ((e.apply p (s.setTask p t)).task r).work < ∑ _r ∈ P, workLimit :=
            Finset.sum_lt_sum_of_nonempty ⟨p,hp⟩ fun r _ => work_lt _
        _ = workLimit*P.card := by rw [Finset.sum_const,smul_eq_mul,Nat.mul_comm]
    have := Nat.mul_le_mul_left (workLimit*P.card) (Nat.succ_le_of_lt hfall)
    rw [Nat.succ_eq_add_one,Nat.mul_add,Nat.mul_one] at this
    omega

theorem potential_call {c : Call} (hidle : (s.task p).pc = .idle) :
    potential P (s.setTask p ((s.task p).enter c)) ≤ potential P s+(workLimit+workLimit*P.card*2) := by
  obtain ⟨hwork,hstirs⟩ := work_of_idle hidle
  have hgrow : ∑ r ∈ P, ((s.setTask p ((s.task p).enter c)).task r).work ≤
      (∑ r ∈ P, (s.task r).work)+workLimit := by
    refine sum_grows (p := p) ?_ fun r hr => by rw [setTask_other s _ hr]
    have := work_lt ((s.setTask p ((s.task p).enter c)).task p)
    omega
  have hstir : ∑ r ∈ P, ((s.setTask p ((s.task p).enter c)).task r).stirs ≤
      (∑ r ∈ P, (s.task r).stirs)+2 := by
    refine sum_grows (p := p) ?_ fun r hr => by rw [setTask_other s _ hr]
    rw [setTask_self]
    have := enter_stirs (s.task p) c
    omega
  have := Nat.mul_le_mul_left (workLimit*P.card) hstir
  rw [Nat.mul_add] at this
  unfold potential
  omega

/-- A nudge from outside may set one task going again. -/
theorem potential_nudge {t : Task} {k : ℕ} (h : Nudge (s.task p) t) (hk : t.work ≤ (s.task p).work+k) :
    potential P (s.setTask p t) ≤ potential P s+k := by
  have hgrow : ∑ r ∈ P, ((s.setTask p t).task r).work ≤ (∑ r ∈ P, (s.task r).work)+k := by
    refine sum_grows (p := p) ?_ fun r hr => by rw [setTask_other s _ hr]
    rwa [setTask_self]
  have hstir : ∀ r, ((s.setTask p t).task r).stirs = (s.task r).stirs := fun r =>
    ((quiet_setTask s p h).task r).stirs
  unfold potential
  simp only [hstir]
  omega

theorem statement_idle {dev : GlobalfifoDev} {t : Task} (h : t.pc = .idle) (c : Choice) : statement dev t c = none := by
  cases hcall : t.call <;>
    simp only [statement, hcall, globalfifoRead, globalfifoWrite, globalfifoIoctl, doPoll, globalfifoPoll, h]

/-- Only processes of `P` are in a call. -/
def Confined (P : Finset Pid) (s : Sys) : Prop := ∀ p, (s.task p).pc ≠ .idle → p ∈ P

theorem confined_step (h : step s a = some s') (hC : Regular P s a) (hs : Confined P s) : Confined P s' := by
  intro p
  refine task_step (P := fun t => t.pc ≠ .idle → p ∈ P) (fun hn ht hpc => ht (hn.pc ▸ hpc)) h ?_ ?_ (hs p)
  · rintro c rfl -
    exact hC
  · intro c t e _ hst _
    refine hs p fun hidle => ?_
    rw [statement_idle hidle] at hst
    contradiction

theorem step_pays (hs : Confined P s) (hC : Regular P s a) (h : step s a = some s') :
    (if a.isStatement then 1 else 0)+potential P s' ≤ potential P s+a.credit P.card := by
  cases a with
  | call p c =>
    simp only [step, Option.ite_none_right_eq_some, Option.some.injEq] at h
    obtain ⟨hidle,rfl⟩ := h
    simpa [Act.isStatement, Act.credit] using potential_call hidle
  | run p c =>
    simp only [step, Option.map_eq_some_iff] at h
    obtain ⟨⟨t,e⟩,hst,rfl⟩ := h
    have hp : p ∈ P := hs p fun hidle => by
      rw [statement_idle hidle] at hst
      contradiction
    have := potential_statement hp (fun hsig => hC hsig t e hst) hst
    simp only [Act.isStatement, Act.credit, if_true]
    omega
  | signal p =>
    cases h
    have hnudge : Nudge (s.task p) (s.task p).signal := .signal
    simpa [Act.isStatement, Act.credit] using potential_nudge hnudge ((work_lt _).le.trans (Nat.le_add_left _ _))
  | handleSignal p =>
    simp only [step, Option.ite_none_right_eq_some, Option.some.injEq] at h
    obtain ⟨hpc,rfl⟩ := h
    have hnudge : Nudge (s.task p) {s.task p with signalled := false} := .handleSignal hpc
    have hwork := (work_of_idle (hnudge.pc.trans hpc)).1
    simpa [Act.isStatement, Act.credit] using potential_nudge (k := 0) hnudge (hwork.le.trans (Nat.zero_le _))
  | timeout p =>
    simp only [step, Option.ite_none_right_eq_some, Option.some.injEq] at h
    obtain ⟨hpc,rfl⟩ := h
    have hnudge : Nudge (s.task p) {s.task p with state := .running} := .timeout hpc
    simpa [Act.isStatement, Act.credit] using potential_nudge hnudge ((work_lt _).le.trans (Nat.le_add_left _ _))
  | setOwner file p => cases h; simp [Act.isStatement, Act.credit, potential]
  | fasync file mode => cases h; simp [Act.isStatement, Act.credit, potential]
  | release file => cases h; simp [Act.isStatement, Act.credit, potential]

theorem potential_load : potential P load = 0 := by
  simp [potential, load, Task.rest, Task.work, Task.stirs]

def Act.isCall : Act → Bool
  | .call _ _ => true
  | _ => false

/-- The events that may wake a sleeper from outside. -/
def Act.isNudge : Act → Bool
  | .signal _ | .timeout _ => true
  | _ => false

theorem credit_eq (n : ℕ) (acts : List Act) : (acts.map (Act.credit n)).sum =
    workLimit*((1+2*n)*acts.countP Act.isCall+acts.countP Act.isNudge) := by
  induction acts with
  | nil => rfl
  | cons a acts ih =>
    rw [List.map_cons,List.sum_cons,ih,List.countP_cons,List.countP_cons]
    cases a <;> simp only [Act.credit, Act.isCall, Act.isNudge, if_true, Bool.false_eq_true, if_false] <;> ring

theorem statements_eq (acts : List Act) :
    (acts.map fun a => if a.isStatement then 1 else 0).sum = acts.countP Act.isStatement := by
  induction acts with
  | nil => rfl
  | cons a acts ih => rw [List.map_cons,List.sum_cons,ih,List.countP_cons,Nat.add_comm]

/-- No process spins. A run of `n` processes executes a bounded number of statements for each call and for
each signal or timeout, whatever the order: they cannot keep each other going. -/
theorem statements_bounded {acts : List Act} (h : Reached acts s) (hC : Meets step (Regular P) load acts) :
    acts.countP Act.isStatement ≤
      workLimit*((1+2*P.card)*acts.countP Act.isCall+acts.countP Act.isNudge) := by
  have hload : Confined P load := fun _ hp => absurd rfl hp
  have hinv : ∀ s a t, step s a = some t → Regular P s a → Confined P s → Confined P t :=
    fun _ _ _ hst hc hs => confined_step hst hc hs
  have hpays := run_pays hinv (fun _ _ _ hst hc hs => step_pays hs hc hst) hC h hload
  rw [statements_eq,credit_eq,potential_load] at hpays
  omega

end Runs

/-- Process 1 falls asleep on the empty queue; process 2 writes and wakes it. -/
def handover : List Act :=
  .call 1 (.read false 8) :: List.replicate 6 (Act.run 1 .done) ++
    .call 2 (.write true 2 fun _ => 7) :: List.replicate 12 (Act.run 2 .done) ++ List.replicate 13 (Act.run 1 .done)

theorem statements_bounded_handover : ∃ s, Reached handover s ∧ handover.countP Act.isStatement = 31 ∧
    handover.countP Act.isStatement ≤ workLimit*((1+2*({1,2} : Finset Pid).card)*
      handover.countP Act.isCall+handover.countP Act.isNudge) := by
  obtain ⟨s,hs,-⟩ := exists_of_run_any step load handover (fun _ => true) (by decide)
  refine ⟨s,hs,by decide,statements_bounded hs ?_⟩
  refine meets_of_check (fun s a => match a with
    | .call p _ => p = 1 || p = 2
    | .run p _ => !(s.task p).signalled
    | _ => true) ?_ (by decide)
  intro s a hb
  cases a <;> simp_all [Regular]

section Rest

/-- The program points that a call gets to. -/
def Call.reaches : Call → Pc → Bool
  | _, .idle => true
  | .read _ _, .lock | .read _ _, .addWait | .read _ _, .test | .read _ _, .sleep | .read _ _, .unlock
  | .read _ _, .schedule | .read _ _, .asleep | .read _ _, .resume | .read _ _, .relock | .read _ _, .clamp
  | .read _ _, .copy | .read _ _, .shift | .read _ _, .account | .read _ _, .wake | .read _ _, .out
  | .read _ _, .removeWait | .read _ _, .setRunning | .read _ _, .ret => true
  | .write _ _ _, .lock | .write _ _ _, .addWait | .write _ _ _, .test | .write _ _ _, .sleep
  | .write _ _ _, .unlock | .write _ _ _, .schedule | .write _ _ _, .asleep | .write _ _ _, .resume
  | .write _ _ _, .relock | .write _ _ _, .clamp | .write _ _ _, .copy | .write _ _ _, .account
  | .write _ _ _, .wake | .write _ _ _, .sigio | .write _ _ _, .out | .write _ _ _, .removeWait
  | .write _ _ _, .setRunning | .write _ _ _, .ret => true
  | .ioctl _, .ioctlSwitch | .ioctl _, .ioctlLock | .ioctl _, .ioctlClear | .ioctl _, .ioctlMemset
  | .ioctl _, .ioctlUnlock | .ioctl _, .ret => true
  | .poll _, .pollLock | .poll _, .pollWaitR | .poll _, .pollWaitW | .poll _, .pollTestR | .poll _, .pollTestW
  | .poll _, .pollUnlock | .poll _, .pollRet | .poll _, .selCheck | .poll _, .selSleep | .poll _, .selSchedule
  | .poll _, .selAsleep | .poll _, .selAgain | .poll _, .selFreeR | .poll _, .selFreeW => true
  | _, _ => false

/-- Outside of any call, or asleep until somebody wakes the task. -/
def Task.rests (t : Task) : Prop :=
  t.pc = .idle ∨ (t.pc = .asleep ∨ t.pc = .selAsleep) ∧ t.state = .interruptible

variable {dev : GlobalfifoDev} {t t' : Task} {c : Choice} {e : Effect}

theorem statement_reaches (h : statement dev t c = some (t',e)) : t'.call.reaches t'.pc = true := by
  obtain ⟨_,_,hcall,h⟩ | ⟨_,_,_,hcall,h⟩ | ⟨_,hcall,h⟩ | ⟨_,hcall,h⟩ := statement_move h
  all_goals cases h <;> simp [hcall, Call.reaches]

theorem running_of_not_rests (h : ¬ t.rests) (hpc : t.pc = .asleep ∨ t.pc = .selAsleep) : t.state = .running := by
  cases hstate : t.state with
  | running => rfl
  | interruptible => exact absurd (.inr ⟨hpc,hstate⟩) h

/-- Only a held mutex keeps a task that does not rest from its next statement. -/
theorem statement_enabled (hr : t.call.reaches t.pc = true) (hn : ¬ t.rests)
    (hl : t.pc.locks = true → dev.mutex = none) : ∃ r, statement dev t .giveUp = some r ∧ r.1.pc ≠ .selSleep := by
  have hidle : t.pc ≠ .idle := fun h => hn (.inl h)
  have hawake := running_of_not_rests hn
  cases hcall : t.call <;> cases hpc : t.pc <;> rw [hcall,hpc] at hr <;> try contradiction
  all_goals
    simp only [hpc, Pc.locks, true_implies, true_or, or_true] at hl hawake
    simp only [statement, hcall, globalfifoRead, globalfifoWrite, globalfifoIoctl, doPoll, globalfifoPoll,
      pollWait, mutexLock, enterSchedule, leaveSchedule, hpc]
    (repeat' split) <;> simp_all

variable {P : Finset Pid} {s s' u : Sys} {a : Act} {acts : List Act}

/-- Every task is at a program point of its call. -/
def Placed (s : Sys) : Prop := ∀ p, (s.task p).call.reaches (s.task p).pc = true

theorem placed_step (h : step s a = some s') (hs : Placed s) : Placed s' := by
  intro p
  refine task_step (P := fun t => t.call.reaches t.pc = true) (fun hn ht => ?_) h ?_ ?_ (hs p)
  · rwa [hn.call,hn.pc]
  · intro c _
    cases c <;> rfl
  · intro c t e _ hst
    exact statement_reaches hst

/-- A poller that is about to sleep has found something, though nothing it asks for, and has not been
triggered since. -/
structure Task.resigned (t : Task) : Prop where
  found : t.pc = .pollUnlock ∨ t.pc = .pollRet ∨ t.pc = .selCheck ∨ t.pc = .selSleep ∨ t.pc = .selSchedule ∨
    t.pc = .selAsleep → t.mask.pollin = true ∨ t.mask.pollout = true
  unwanted : t.pc = .selSleep ∨ t.pc = .selSchedule ∨ t.pc = .selAsleep → ∀ ev, t.call = .poll ev →
    ∀ q, ev.bit q = true → t.mask.bit q = false
  untriggered : t.pc = .selAsleep → t.state = .interruptible → t.triggered = false

theorem statement_resigned (hc : t.certain dev.currentLen) (hr : t.resigned)
    (h : statement dev t c = some (t',e)) : t'.resigned := by
  obtain ⟨hfound,hunwanted,huntriggered⟩ := hr
  obtain ⟨_,_,hcall,h⟩ | ⟨_,_,_,hcall,h⟩ | ⟨_,hcall,h⟩ | ⟨ev,hcall,h⟩ := statement_move h
  case inr.inr.inr =>
    cases h <;> rename_i hpc
    case testW =>
      simp only [Task.certain, hcall, hpc] at hc
      refine ⟨fun _ => ?_,by simp,by simp⟩
      by_cases hzero : dev.currentLen = 0
      · exact .inr (by simp [hzero, globalfifoSize])
      · exact .inl (by simp [hc, hzero])
    case stay hready =>
      refine ⟨fun _ => hfound (by simp [hpc]),fun _ ev' hev q hq => ?_,by simp⟩
      obtain rfl := Call.poll.inj (hcall.symm.trans hev)
      simp only [Bool.or_eq_true, Bool.and_eq_true, decide_eq_true_eq, not_or, not_and, Bool.not_eq_true] at hready
      cases q with
      | r => exact Bool.eq_false_iff.mpr fun hin => by simp_all [Events.bit]
      | w => exact Bool.eq_false_iff.mpr fun hout => by simp_all [Events.bit]
    all_goals constructor <;> simp_all
  all_goals cases h <;> constructor <;> simp_all

theorem Nudge.resigned (h : Nudge t t') (hr : t.resigned) : t'.resigned := by
  obtain ⟨hfound,hunwanted,huntriggered⟩ := hr
  refine ⟨by rwa [h.pc,h.mask],by rwa [h.pc,h.mask,h.call],?_⟩
  cases h <;> simp_all [Task.wakeFunction, Task.signal]

theorem resigned_step (h : step s a = some s') (hc : ∀ p, (s.task p).certain s.dev.currentLen)
    (hr : ∀ p, (s.task p).resigned) (p : Pid) : (s'.task p).resigned := by
  refine task_step (fun hn hr => hn.resigned hr) h ?_ ?_ (hr p)
  · intro c _
    cases c <;> constructor <;> simp [Task.enter, entryPoint]
  · intro c t e _ hst
    exact statement_resigned (hc p) (hr p) hst

theorem resigned_reached (h : Reached acts s) (p : Pid) : (s.task p).resigned := by
  have hinv : Inv s ∧ (∀ p, (s.task p).certain s.dev.currentLen) ∧ ∀ p, (s.task p).resigned := by
    refine run_invariant (I := fun s => Inv s ∧ (∀ p, (s.task p).certain s.dev.currentLen) ∧
      ∀ p, (s.task p).resigned) (fun s a s' hst hs => ?_) h ⟨inv_load,fun _ => trivial,fun _ => ?_⟩
    · exact ⟨inv_step hst hs.1,certain_step hst hs.1.lock hs.2.1,resigned_step hst hs.2.1 hs.2.2⟩
    · constructor <;> simp [load, Task.rest]
  exact hinv.2.2 p

/-- The task is in a call that may wait on the queue: a read for data, a write for room, a poll for what it
asks for. -/
def Task.waitsFor (t : Task) (q : Side) : Bool :=
  match t.call with
  | .read _ _ => q = .r
  | .write _ _ _ => q = .w
  | .ioctl _ => false
  | .poll ev => ev.bit q

/-- Whoever is still in a call that waits on the queue has a reason to wait. -/
def Waits (q : Side) (s : Sys) : Prop :=
  ∀ p, (s.task p).pc ≠ .idle → (s.task p).waitsFor q = true → s.dev.currentLen = q.limit

/-- At rest in the driver, a task that waits on the queue is asleep there. -/
theorem sleepsOn_of_rests {q : Side} (hreaches : t.call.reaches t.pc = true) (hrests : t.rests)
    (hr : t.resigned) (hpc : t.pc ≠ .idle) (hwaits : t.waitsFor q = true) : t.sleepsOn q = true := by
  obtain ⟨hasleep,hstate⟩ := hrests.resolve_left hpc
  cases hcall : t.call with
  | read nonblock n =>
    obtain hasleep | hasleep := hasleep <;> rw [hcall,hasleep] at hreaches <;> try contradiction
    simpa [Task.sleepsOn, Task.waitsFor, hcall, hasleep, hstate] using hwaits
  | write nonblock n buf =>
    obtain hasleep | hasleep := hasleep <;> rw [hcall,hasleep] at hreaches <;> try contradiction
    simpa [Task.sleepsOn, Task.waitsFor, hcall, hasleep, hstate] using hwaits
  | ioctl cmd => simp [Task.waitsFor, hcall] at hwaits
  | poll ev =>
    obtain hasleep | hasleep := hasleep <;> rw [hcall,hasleep] at hreaches <;> try contradiction
    have hunwanted := hr.unwanted (by simp [hasleep]) ev hcall
    have hfound := hr.found (by simp [hasleep])
    have huntriggered := hr.untriggered hasleep hstate
    simp only [Task.waitsFor, hcall] at hwaits
    -- what it has found is on the other side, so it asks for this side only
    have hin := hunwanted .r
    have hout := hunwanted .w
    have honly : ev.only q = true := by cases q <;> simp_all [Events.only, Events.bit]
    simp [Task.sleepsOn, hcall, hasleep, hstate, huntriggered, honly, hunwanted q hwaits]

/-- Nobody has anything left to do: the mutex is free, every process is out of the driver or asleep in it
without a signal, and whoever waits for data waits on an empty queue. -/
structure Settled (s : Sys) : Prop where
  free : s.dev.mutex = none
  rests : ∀ p, (s.task p).rests
  unsignalled : ∀ p, (s.task p).pc ≠ .idle → (s.task p).signalled = false
  empty : Waits .r s

/-- The statements of the calls in progress, and nothing else. -/
def Onward (P : Finset Pid) (s : Sys) (a : Act) : Prop := a.isStatement = true ∧ Regular P s a

theorem enabled_of_not_rests (hs : Placed s) {p : Pid} (hn : ¬ (s.task p).rests)
    (hl : (s.task p).pc.locks = true → s.dev.mutex = none) : ∃ a, Onward P s a ∧ step s a ≠ none := by
  obtain ⟨r,hst,hpc⟩ := statement_enabled (hs p) hn hl
  refine ⟨.run p .giveUp,⟨rfl,fun _ t e he => ?_⟩,by simp [step, hst]⟩
  cases hst.symm.trans he
  exact hpc

theorem waits_of_rests {q : Side} (hw : WaitInv q s) (hs : Placed s) (hr : ∀ p, (s.task p).resigned)
    (hfree : s.dev.mutex = none) (hrests : ∀ p, (s.task p).rests) : Waits q s := fun p hpc hwaits =>
  limit_of_sleepsOn hw hfree (sleepsOn_of_rests (hs p) (hrests p) (hr p) hpc hwaits)

theorem settled_of_stuck (hw : WaitInv .r s) (hs : Placed s) (hr : ∀ p, (s.task p).resigned)
    (hstuck : ∀ a, Onward P s a → step s a = none) : Settled s := by
  have hfree : s.dev.mutex = none := by
    cases hm : s.dev.mutex with
    | none => rfl
    | some p =>
      -- the holder is neither at rest nor in front of `mutex_lock`
      have hholds := (hw.lock.mutex p).mp hm
      have hn : ¬ (s.task p).rests := by
        rintro (h | ⟨h | h,-⟩) <;> rw [h] at hholds <;> contradiction
      obtain ⟨a,ha,hne⟩ := enabled_of_not_rests (P := P) hs hn fun hlocks => by
        rw [Pc.not_holds_of_locks hlocks] at hholds
        contradiction
      exact absurd (hstuck a ha) hne
  have hrests : ∀ p, (s.task p).rests := by
    intro p
    by_contra hn
    obtain ⟨a,ha,hne⟩ := enabled_of_not_rests (P := P) hs hn fun _ => hfree
    exact hne (hstuck a ha)
  refine ⟨hfree,hrests,fun p hpc => ?_,waits_of_rests hw hs hr hfree hrests⟩
  obtain ⟨hasleep,hstate⟩ := (hrests p).resolve_left hpc
  exact (hw.patient p).asleep hasleep hstate

theorem onward_falls (hs : Confined P s) (ha : Onward P s a) (h : step s a = some s') :
    potential P s' < potential P s := by
  have hpays := step_pays hs ha.2 h
  obtain ⟨p,c,rfl⟩ : ∃ p c, a = .run p c := by
    cases a with
    | run p c => exact ⟨p,c,rfl⟩
    | _ => cases ha.1
  simp only [Act.isStatement, Act.credit, if_true] at hpays
  omega

/-- Deadlock freedom under every scheduler. From a reached state the calls in progress execute a bounded
number of statements; wherever these end, the system is settled, and there is a way to get there. Where the
run has cleared the queue only unwatched, whoever waits for room then waits on a full queue. -/
theorem calls_settle (h : Reached acts s) (hC : Meets step (Regular P) load acts) :
    (∀ later u, Meets step (Onward P) s later → run step s later = some u →
      later.length ≤ potential P s ∧ ((∀ a, Onward P u a → step u a = none) →
        Settled u ∧ (Meets step ClearsUnwatched load (acts ++ later) → Waits .w u))) ∧
    ∃ later u, Meets step (Onward P) s later ∧ run step s later = some u ∧
      Settled u ∧ (Meets step ClearsUnwatched load (acts ++ later) → Waits .w u) := by
  have hconfined : Confined P s := run_invariant_of_meets (I := Confined P)
    (fun _ _ _ hst hc hs => confined_step hst hc hs) hC h fun _ hp => absurd rfl hp
  have hstuck : ∀ later u, run step s later = some u → (∀ a, Onward P u a → step u a = none) →
      Settled u ∧ (Meets step ClearsUnwatched load (acts ++ later) → Waits .w u) := by
    intro later u hu hend
    have hreached : Reached (acts ++ later) u := run_append_eq_some.mpr ⟨s,h,hu⟩
    have hplaced : Placed u := run_invariant (fun _ _ _ => placed_step) hreached fun _ => rfl
    have hsettled : Settled u := settled_of_stuck (waitInv_reached hreached fun hq => by cases hq) hplaced
      (resigned_reached hreached) hend
    refine ⟨hsettled,fun hclears => ?_⟩
    exact waits_of_rests (waitInv_reached hreached fun _ => hclears) hplaced (resigned_reached hreached)
      hsettled.free hsettled.rests
  constructor
  · intro later u hA hu
    refine ⟨?_,hstuck later u hu⟩
    have hlength := length_le_of_falls (I := Confined P) (Φ := potential P)
      (fun _ _ _ hst ha hs => confined_step hst ha.2 hs) (fun _ _ _ hst ha hs => onward_falls hs ha hst)
      hA hu hconfined
    omega
  · obtain ⟨later,u,hA,hu,hend⟩ := exists_rest (A := Onward P) (Φ := potential P) (I := Confined P)
      (fun _ _ _ hst ha hs => confined_step hst ha.2 hs) (fun _ _ _ hst ha hs => onward_falls hs ha hst) hconfined
    exact ⟨later,u,hA,hu,hstuck later u hu hend⟩

end Rest

/-- A reader alone with an empty queue comes to rest there. -/
theorem calls_settle_reader : ∃ s later u, Reached [.call 1 (.read false 8)] s ∧
    run step s later = some u ∧ Settled u := by
  obtain ⟨s,hs,-⟩ := exists_of_run_any step load [.call 1 (.read false 8)] (fun _ => true) (by decide)
  have hC : Meets step (Regular {1}) load [.call 1 (.read false 8)] := ⟨by simp [Regular],fun _ _ => trivial⟩
  obtain ⟨later,u,-,hu,hsettled,-⟩ := (calls_settle hs hC).2
  exact ⟨s,later,u,hs,hu,hsettled⟩

end ExampleKernel.GlobalFifo
