import ExampleKernel.GlobalFifo.Discipline

/-! Mutual exclusion, wait-queue membership and task states over every interleaving. -/
namespace ExampleKernel.GlobalFifo
open ExampleKernel.Foundation ExampleKernel.Kernel

/-- The lock invariant: program points decide who holds the mutex, who is queued where, and
who may be interruptible. -/
structure LockInv (s : Sys) : Prop where
  mutex : ∀ p, s.dev.mutex = some p ↔ (s.task p).pc.holds = true
  queued : ∀ p q, (s.dev.wait q).count p = ((s.task p).queued q).toNat
  dozes : ∀ p, (s.task p).state = .interruptible → (s.task p).pc.dozes = true

theorem lockInv_load : LockInv load := by
  constructor
  · intro p; simp [load, Task.rest, Pc.holds]
  · intro p q; simp [load, Task.rest, Task.queued]
  · intro p h; simp [load, Task.rest] at h

theorem enter_idle (t : Task) (c : Call) :
    (t.enter c).pc.holds = false ∧ (∀ q, (t.enter c).queued q = false) ∧
      (t.enter c).state = .running := by
  cases c <;> simp [Task.enter, entryPoint, Pc.holds, Task.queued, Pc.queuedRw, Pc.queuedPoll]

theorem queued_of_idle {t : Task} (h : t.pc = .idle) (q : Side) : t.queued q = false := by
  cases hc : t.call <;> simp [Task.queued, Pc.queuedRw, Pc.queuedPoll, hc, h]

theorem lockInv_call {s : Sys} (hs : LockInv s) {p : Pid} {c : Call}
    (hidle : (s.task p).pc = .idle) : LockInv (s.setTask p ((s.task p).enter c)) := by
  obtain ⟨hholds,hqueued,hstate⟩ := enter_idle (s.task p) c
  constructor
  · intro r
    by_cases hr : r = p
    · subst hr
      have hm := hs.mutex r
      rw [hidle] at hm
      rw [setTask_self,hholds]
      exact hm
    · simpa [setTask_other s _ hr] using hs.mutex r
  · intro r q
    by_cases hr : r = p
    · subst hr
      simpa only [setTask_dev, setTask_self, hqueued, queued_of_idle hidle] using hs.queued r q
    · simpa only [setTask_dev, setTask_other s _ hr] using hs.queued r q
  · intro r h
    by_cases hr : r = p
    · subst hr; rw [setTask_self,hstate] at h; contradiction
    · rw [setTask_other s _ hr] at h ⊢; exact hs.dozes r h

/-- A task that changes the mutex is the one that the change is about. -/
theorem mutexAfter_iff {s : Sys} (hs : LockInv s) {p : Pid} {t : Task} {e : Effect}
    (h : Disciplined s.dev (s.task p) t e) (r : Pid) :
    e.mutexAfter p s.dev.mutex = some r ↔
      if r = p then t.pc.holds = true else (s.task r).pc.holds = true := by
  rw [h.holds]
  have hr := hs.mutex r
  have hp := hs.mutex p
  cases he : e with
  | mutexLock =>
    obtain ⟨hfree,-⟩ := h.locks he
    rw [hfree] at hr
    split_ifs with hrp
    · simp [hrp, Effect.mutexAfter, Effect.holdsAfter]
    · simpa [Ne.symm hrp, Effect.mutexAfter] using hr
  | mutexUnlock =>
    rw [Pc.holds_of_unlocks (h.unlocks he)] at hp
    split_ifs with hrp
    · simp [Effect.mutexAfter, Effect.holdsAfter]
    · rw [← hr,hp.mpr rfl]
      simpa [Effect.mutexAfter] using Ne.symm hrp
  | _ => split_ifs with hrp <;> [(subst hrp; exact hr); exact hr]

theorem lockInv_statement {s : Sys} (hs : LockInv s) {p : Pid} {t : Task} {e : Effect}
    (h : Disciplined s.dev (s.task p) t e) : LockInv (e.apply p (s.setTask p t)) := by
  have hself := apply_setTask_self p s t e
  constructor
  · intro r
    rw [apply_mutex,setTask_dev,mutexAfter_iff hs h]
    split_ifs with hr
    · rw [hr,hself.pc]
    · rw [(apply_setTask_other hr s t e).pc]
  · intro r q
    by_cases hr : r = p
    · subst hr
      rw [hself.queued,h.queued]
      exact apply_count_self r _ e q (hs.queued r q) (h.enqueues q)
    · rw [apply_count_other hr,(apply_setTask_other hr s t e).queued]
      exact hs.queued r q
  · intro r hstate
    by_cases hr : r = p
    · subst hr
      rw [hself.pc]
      exact h.dozes (hs.dozes r) (hself.state hstate)
    · have hn := apply_setTask_other hr s t e
      rw [hn.pc]
      exact hs.dozes r (hn.state hstate)

theorem lockInv_quiet {s s' : Sys} (hs : LockInv s) (h : Quiet s s') : LockInv s' := by
  constructor
  · intro p; rw [h.mutex,(h.task p).pc]; exact hs.mutex p
  · intro p q; rw [h.wait,(h.task p).queued]; exact hs.queued p q
  · intro p hp; rw [(h.task p).pc]; exact hs.dozes p ((h.task p).state hp)

theorem lockInv_step {s s' : Sys} {a : Act} (h : step s a = some s') (hs : LockInv s) :
    LockInv s' := by
  obtain ⟨p,c,-,hidle,rfl⟩ | ⟨p,c,t,e,-,hst,rfl⟩ | hq := step_cases h
  · exact lockInv_call hs hidle
  · exact lockInv_statement hs (statement_disciplined hst)
  · exact lockInv_quiet hs hq

/-- The lock invariant holds after every run of the loaded module. -/
theorem lockInv_reached {acts : List Act} {s : Sys} (h : Reached acts s) : LockInv s :=
  run_invariant (fun _ _ _ => lockInv_step) h lockInv_load

/-- A task on a wait queue is one whose frame says so. -/
theorem mem_wait_iff {s : Sys} (hs : LockInv s) (p : Pid) (q : Side) :
    p ∈ s.dev.wait q ↔ (s.task p).queued q = true := by
  rw [← List.count_pos_iff,hs.queued p q]
  cases (s.task p).queued q <;> simp

theorem running_of_not_dozes {s : Sys} (hs : LockInv s) {p : Pid}
    (h : (s.task p).pc.dozes = false) : (s.task p).state = .running := by
  cases hstate : (s.task p).state with
  | running => rfl
  | interruptible => rw [hs.dozes p hstate] at h; contradiction

/-- The device with other contents. -/
def GlobalfifoDev.withData (dev : GlobalfifoDev) (len : UInt32) (mem : ℕ → UInt8) : GlobalfifoDev :=
  {dev with currentLen := len, mem := mem}

def Sys.withData (s : Sys) (len : UInt32) (mem : ℕ → UInt8) : Sys :=
  {s with dev := s.dev.withData len mem}

theorem mutexLock_withData (dev : GlobalfifoDev) (t : Task) (next : Pc) (len : UInt32)
    (mem : ℕ → UInt8) : mutexLock (dev.withData len mem) t next = mutexLock dev t next := rfl

/-- A statement executed without the mutex does not depend on the contents of the queue. -/
theorem statement_withData {dev : GlobalfifoDev} {t : Task} (h : t.pc.holds = false) (c : Choice)
    (len : UInt32) (mem : ℕ → UInt8) : statement (dev.withData len mem) t c = statement dev t c := by
  cases hcall : t.call <;> cases hpc : t.pc <;>
    first
    | exact absurd h (by rw [hpc]; decide)
    | simp only [statement, hcall, globalfifoRead, globalfifoWrite, globalfifoIoctl, doPoll,
        globalfifoPoll, mutexLock_withData, hpc]

theorem apply_withData (p : Pid) (s : Sys) {e : Effect} (h : e.writes = false) (len : UInt32)
    (mem : ℕ → UInt8) : e.apply p (s.withData len mem) = (e.apply p s).withData len mem := by
  cases e <;> first | rfl | cases h

/-- Without the mutex, a step of a task neither reads nor changes the contents of the queue. -/
theorem run_withData {s : Sys} (hs : LockInv s) {p : Pid} (h : s.dev.mutex ≠ some p) (c : Choice)
    (len : UInt32) (mem : ℕ → UInt8) :
    step (s.withData len mem) (.run p c) = (step s (.run p c)).map (·.withData len mem) := by
  have hp : (s.task p).pc.holds = false := by
    rw [← Bool.not_eq_true,← hs.mutex p]; exact h
  simp only [step, Option.map_map]
  change (statement (s.dev.withData len mem) (s.task p) c).map _ = _
  rw [statement_withData hp c len mem]
  cases hst : statement s.dev (s.task p) c with
  | none => rfl
  | some r =>
    have hw : r.2.writes = false := by
      rw [← Bool.not_eq_true]
      intro hw
      rw [(statement_disciplined hst).writes hw] at hp
      contradiction
    exact congrArg some (apply_withData p (s.setTask p r.1) hw len mem)

/-- Lock and wait-queue discipline of every interleaving. Reads, writes and ioctls return with
no entry on either queue; `globalfifo_poll` returns with one poll-table entry on each, and the
poll core has freed both when the system call is over. -/
theorem lock_discipline {acts : List Act} {s : Sys} (h : Reached acts s) :
    (∀ p c t e, statement s.dev (s.task p) c = some (t,e) → e = .mutexUnlock →
      s.dev.mutex = some p) ∧
    (∀ p, (s.task p).pc.locks = true → s.dev.mutex ≠ some p) ∧
    (∀ p, (s.task p).pc.schedules = true → s.dev.mutex ≠ some p) ∧
    (∀ p c len mem, s.dev.mutex ≠ some p →
      step (s.withData len mem) (.run p c) = (step s (.run p c)).map (·.withData len mem)) ∧
    (∀ p, (s.task p).pc = .ret →
      s.dev.mutex ≠ some p ∧ (∀ q, p ∉ s.dev.wait q) ∧ (s.task p).state = .running) ∧
    (∀ p ev, (s.task p).call = .poll ev → (s.task p).pc = .pollRet →
      s.dev.mutex ≠ some p ∧ (∀ q, (s.dev.wait q).count p = 1) ∧ (s.task p).state = .running) ∧
    (∀ p q, (s.task p).pc = .idle → p ∉ s.dev.wait q) := by
  have hs := lockInv_reached h
  have free : ∀ p, (s.task p).pc.holds = false → s.dev.mutex ≠ some p := by
    intro p hp hm
    rw [(hs.mutex p).mp hm] at hp
    contradiction
  refine ⟨?_,?_,?_,?_,?_,?_,?_⟩
  · intro p c t e hst he
    exact (hs.mutex p).mpr (Pc.holds_of_unlocks ((statement_disciplined hst).unlocks he))
  · exact fun p hp => free p (Pc.not_holds_of_locks hp)
  · exact fun p hp => free p (Pc.not_holds_of_schedules hp)
  · exact fun p c len mem hp => run_withData hs hp c len mem
  · intro p hp
    refine ⟨free p (by rw [hp]; rfl),fun q => ?_,running_of_not_dozes hs (by rw [hp]; rfl)⟩
    rw [mem_wait_iff hs]
    cases hc : (s.task p).call <;> simp [Task.queued, Pc.queuedRw, Pc.queuedPoll, hc, hp]
  · intro p ev hc hp
    refine ⟨free p (by rw [hp]; rfl),fun q => ?_,running_of_not_dozes hs (by rw [hp]; rfl)⟩
    rw [hs.queued p q]
    cases q <;> simp [Task.queued, Pc.queuedPoll, hc, hp]
  · intro p q hp
    rw [mem_wait_iff hs,queued_of_idle hp]
    simp

/-- A reader asleep on the empty queue has released the mutex. -/
theorem lock_discipline_sleeper : ∃ acts s, Reached acts s ∧ (s.task 1).pc = .asleep ∧
    s.dev.mutex ≠ some 1 := by
  obtain ⟨s,hs,hp⟩ := exists_of_run_any step load
    (.call 1 (.read false 8) :: List.replicate 6 (.run 1 .done))
    (fun s => (s.task 1).pc = .asleep) (by decide)
  have hpc : (s.task 1).pc = .asleep := by simpa using hp
  exact ⟨_,s,hs,hpc,(lock_discipline hs).2.2.1 1 (by rw [hpc]; rfl)⟩

/-- A call of `globalfifo_poll` returns while its caller is on both wait queues. -/
theorem poll_returns_queued : ¬ ∀ acts s, Reached acts s →
    ∀ p, (s.task p).pc = .ret ∨ (s.task p).pc = .pollRet → ∀ q, p ∉ s.dev.wait q := by
  intro h
  obtain ⟨s,hs,hp⟩ := exists_of_run_any step load
    (.call 1 (.poll ⟨true,true⟩) :: List.replicate 6 (.run 1 .done))
    (fun s => (s.task 1).pc = .pollRet ∧ 1 ∈ s.dev.wait .r) (by decide)
  simp only [decide_eq_true_eq] at hp
  exact h _ s hs 1 (.inr hp.1) .r hp.2

end ExampleKernel.GlobalFifo
