import ExampleKernel.Foundation.Transition
import ExampleKernel.Kernel.Basic

/-! The two waiter threads of globalmem: `wait_function` sleeps on a wait queue and
`wait_function2` on a completion. Any number of reads notify the second one, and `globalmem_exit`
asks both to return. -/
namespace ExampleKernel.GlobalMem.Waiters
open ExampleKernel.Foundation ExampleKernel.Kernel

/-- Program points of `wait_function`, each before the statement it is named after. The four of
`wait_event_interruptible` are its first test, `prepare_to_wait_event`, the test after it, and
`schedule`. -/
inductive WaitPc
  | waitEvent | prepareToWait | condition | schedule | testFlag | print | resetFlag | returned
  deriving DecidableEq

inductive Wait2Pc
  | waitForCompletion | testFlag | print | resetFlag | returned
  deriving DecidableEq

/-- A read that passed the position check. `seen` is history: how often `wait_function2` had
returned from `wait_for_completion` when the read tested `completion_done`. -/
inductive ReadPc
  | setFlag
  | completionDone
  | complete (seen : ℕ)
  | finished (seen : ℕ)
  deriving DecidableEq

/-- Program points of `globalmem_exit`; `before` is any point up to the requests to the threads. -/
inductive ExitPc
  | before | setWaitQueueFlag | wakeUp | setCompletionFlag | completionDone | complete | returned
  deriving DecidableEq

/-- `task` is the state of the first thread, `queued` whether it is in `wait_queue_exit`; `done`
counts the pending completions of `data_read_complete`. `returns` is history: how often
`wait_for_completion` has returned. -/
structure State where
  waitQueueFlag : ℤ
  task : TaskState
  queued : Bool
  wait : WaitPc
  completionFlag : ℤ
  completionCount : ℕ
  done : ℕ
  wait2 : Wait2Pc
  reads : List ReadPc
  exit : ExitPc
  returns : ℕ

def waitFunction (s : State) : Option State :=
  match s.wait with
  | .waitEvent => some {s with wait := if s.waitQueueFlag ≠ 0 then .testFlag else .prepareToWait}
  | .prepareToWait => some {s with queued := true, task := .interruptible, wait := .condition}
  | .condition =>
    if s.waitQueueFlag ≠ 0 then some {s with queued := false, task := .running, wait := .testFlag}
    else some {s with wait := .schedule}
  | .schedule => if s.task = .running then some {s with wait := .prepareToWait} else none
  | .testFlag => some {s with wait := if s.waitQueueFlag = 2 then .returned else .print}
  | .print => some {s with wait := .resetFlag}
  | .resetFlag => some {s with waitQueueFlag := 0, wait := .waitEvent}
  | .returned => none

/-- The count is printed where it is incremented; it is a `uint32_t`. -/
def waitFunction2 (s : State) : Option State :=
  match s.wait2 with
  | .waitForCompletion =>
    if 0 < s.done then some {s with done := s.done-1, returns := s.returns+1, wait2 := .testFlag}
    else none
  | .testFlag => some {s with wait2 := if s.completionFlag = 2 then .returned else .print}
  | .print => some {s with completionCount := (s.completionCount+1)%2^32, wait2 := .resetFlag}
  | .resetFlag => some {s with completionFlag := 0, wait2 := .waitForCompletion}
  | .returned => none

/-- The notification at the end of read `i`. -/
def globalmemRead (s : State) (i : ℕ) : Option State :=
  match s.reads[i]? with
  | some .setFlag => some {s with completionFlag := 1, reads := s.reads.set i .completionDone}
  | some .completionDone =>
    if 0 < s.done then some {s with reads := s.reads.set i (.finished s.returns)}
    else some {s with reads := s.reads.set i (.complete s.returns)}
  | some (.complete seen) => some {s with done := s.done+1, reads := s.reads.set i (.finished seen)}
  | some (.finished _) => none
  | none => none

def ReadPc.isFinished : ReadPc → Bool
  | .finished _ => true
  | _ => false

/-- The end of `globalmem_exit`, which starts only when the reads are through. -/
def globalmemExit (s : State) : Option State :=
  match s.exit with
  | .before => if s.reads.all ReadPc.isFinished then some {s with exit := .setWaitQueueFlag} else none
  | .setWaitQueueFlag => some {s with waitQueueFlag := 2, exit := .wakeUp}
  | .wakeUp =>
    if s.queued = true ∧ s.task = .interruptible then
      some {s with queued := false, task := .running, exit := .setCompletionFlag}
    else some {s with exit := .setCompletionFlag}
  | .setCompletionFlag => some {s with completionFlag := 2, exit := .completionDone}
  | .completionDone => some {s with exit := if 0 < s.done then .returned else .complete}
  | .complete => some {s with done := s.done+1, exit := .returned}
  | .returned => none

/-- `read` is a new read that passes the position check. -/
inductive Act
  | read
  | notify (i : ℕ)
  | wait
  | wait2
  | exit

def step (s : State) : Act → Option State
  | .read => if s.exit = .before then some {s with reads := s.reads ++ [.setFlag]} else none
  | .notify i => globalmemRead s i
  | .wait => waitFunction s
  | .wait2 => waitFunction2 s
  | .exit => globalmemExit s

/-- Both threads started, nothing read. -/
def loaded : State where
  waitQueueFlag := 0
  task := .running
  queued := false
  wait := .waitEvent
  completionFlag := 0
  completionCount := 0
  done := 0
  wait2 := .waitForCompletion
  reads := []
  exit := .before
  returns := 0

section Frame

variable {s t : State}

theorem waitFunction_exit (h : waitFunction s = some t) : t.exit = s.exit := by
  unfold waitFunction at h
  split at h <;> grind

theorem waitFunction2_exit (h : waitFunction2 s = some t) : t.exit = s.exit := by
  unfold waitFunction2 at h
  split at h <;> grind

theorem globalmemRead_exit {i : ℕ} (h : globalmemRead s i = some t) : t.exit = s.exit := by
  unfold globalmemRead at h
  split at h <;> grind

theorem globalmemExit_ne (h : globalmemExit s = some t) : t.exit ≠ .before := by
  unfold globalmemExit at h
  split at h <;> grind

end Frame

section Notification

/-- What a read has seen lies in the past, and an unseen notification is still pending. -/
def ReadPc.Heard (returns done : ℕ) : ReadPc → Prop
  | .setFlag | .completionDone => True
  | .complete seen => seen ≤ returns
  | .finished seen => seen < returns ∨ seen = returns ∧ 0 < done

theorem ReadPc.Heard.signal {returns done : ℕ} {r : ReadPc} (h : r.Heard returns done) :
    r.Heard returns (done+1) := by
  cases r with
  | finished seen => exact h.imp_right fun h => ⟨h.1,Nat.succ_pos _⟩
  | _ => exact h

/-- A return of the waiter comes after everything seen before it. -/
theorem ReadPc.Heard.returned {returns done : ℕ} {r : ReadPc} (h : r.Heard returns done) :
    r.Heard (returns+1) (done-1) := by
  cases r with
  | setFlag | completionDone => trivial
  | complete seen => exact Nat.le_succ_of_le h
  | finished seen => exact .inl (by obtain h | h := h <;> omega)

/-- The waiter is back from `wait_for_completion` but has not counted the event. -/
def Wait2Pc.uncounted : Wait2Pc → ℕ
  | .testFlag | .print => 1
  | _ => 0

/-- Every completion comes from a read of its own: those pending and those consumed are no more
than the finished reads. -/
structure Accounted (s : State) : Prop where
  heard : ∀ r ∈ s.reads, r.Heard s.returns s.done
  supply : s.done+s.returns ≤ s.reads.countP ReadPc.isFinished
  count : s.completionCount+s.wait2.uncounted ≤ s.returns

theorem accounted_loaded : Accounted loaded := ⟨by simp [loaded],le_rfl,le_rfl⟩

theorem accounted_wait {s t : State} (h : waitFunction s = some t) (hs : Accounted s) : Accounted t := by
  obtain ⟨hheard,hsupply,hcount⟩ := hs
  unfold waitFunction at h
  cases hpc : s.wait <;> simp only [hpc, Option.ite_none_right_eq_some, Option.some.injEq, reduceCtorEq] at h
  case schedule => obtain ⟨-,rfl⟩ := h; exact ⟨hheard,hsupply,hcount⟩
  case condition => split_ifs at h <;> cases h <;> exact ⟨hheard,hsupply,hcount⟩
  all_goals subst h; exact ⟨hheard,hsupply,hcount⟩

theorem accounted_wait2 {s t : State} (h : waitFunction2 s = some t) (hs : Accounted s) : Accounted t := by
  obtain ⟨hheard,hsupply,hcount⟩ := hs
  unfold waitFunction2 at h
  cases hpc : s.wait2 with
  | waitForCompletion =>
    simp only [hpc, Option.ite_none_right_eq_some, Option.some.injEq] at h
    obtain ⟨hdone,rfl⟩ := h
    simp only [hpc, Wait2Pc.uncounted] at hcount
    refine ⟨fun r hr => (hheard r hr).returned,?_,?_⟩
    · show s.done-1+(s.returns+1) ≤ s.reads.countP ReadPc.isFinished
      omega
    · show s.completionCount+1 ≤ s.returns+1
      omega
  | testFlag =>
    simp only [hpc, Option.some.injEq] at h
    subst h
    simp only [hpc, Wait2Pc.uncounted] at hcount
    refine ⟨hheard,hsupply,?_⟩
    split_ifs
    · exact Nat.le_of_succ_le hcount
    · exact hcount
  | print =>
    simp only [hpc, Option.some.injEq] at h
    subst h
    simp only [hpc, Wait2Pc.uncounted] at hcount
    exact ⟨hheard,hsupply,(Nat.mod_le _ _).trans hcount⟩
  | resetFlag =>
    simp only [hpc, Option.some.injEq] at h
    subst h
    simp only [hpc, Wait2Pc.uncounted] at hcount
    exact ⟨hheard,hsupply,hcount⟩
  | returned => simp [hpc] at h

/-- A step of one read moves that read and no other. -/
theorem heard_set {s : State} {i returns done : ℕ} {r : ReadPc} (h : ∀ r ∈ s.reads, r.Heard returns done)
    (hr : r.Heard returns done) : ∀ r' ∈ s.reads.set i r, r'.Heard returns done := by
  intro r' hr'
  obtain hold | rfl := List.mem_or_eq_of_mem_set hr'
  · exact h r' hold
  · exact hr

theorem countP_set_le {rs : List ReadPc} {i : ℕ} {r r' : ReadPc} (h : rs[i]? = some r)
    (hr : r.isFinished = false) :
    (rs.set i r').countP ReadPc.isFinished = rs.countP ReadPc.isFinished+if r'.isFinished then 1 else 0 := by
  obtain ⟨hi,rfl⟩ := List.getElem?_eq_some_iff.mp h
  rw [List.countP_set hi]
  simp [hr]

theorem accounted_notify {s t : State} {i : ℕ} (h : globalmemRead s i = some t) (hs : Accounted s) :
    Accounted t := by
  obtain ⟨hheard,hsupply,hcount⟩ := hs
  unfold globalmemRead at h
  split at h
  · rename_i hi
    cases h
    refine ⟨heard_set hheard trivial,?_,hcount⟩
    rw [countP_set_le hi rfl]
    exact hsupply
  · rename_i hi
    split_ifs at h with hdone
    · cases h
      refine ⟨heard_set hheard (.inr ⟨rfl,hdone⟩),?_,hcount⟩
      rw [countP_set_le hi rfl]
      exact Nat.le_succ_of_le hsupply
    · cases h
      refine ⟨heard_set hheard (le_refl s.returns),?_,hcount⟩
      rw [countP_set_le hi rfl]
      exact hsupply
  · rename_i seen hi
    cases h
    have hseen : seen ≤ s.returns := hheard _ (List.mem_of_getElem? hi)
    refine ⟨heard_set (fun r hr => (hheard r hr).signal) ?_,?_,hcount⟩
    · exact (lt_or_eq_of_le hseen).imp_right fun h => ⟨h,Nat.succ_pos _⟩
    · rw [countP_set_le hi rfl]
      show s.done+1+s.returns ≤ _+1
      omega
  · contradiction
  · contradiction

/-- Up to the requests of `globalmem_exit` the accounts hold. -/
theorem accounted_run {acts : List Act} {s : State} (h : run step loaded acts = some s) :
    s.exit = .before → Accounted s := by
  refine run_invariant (I := fun s => s.exit = .before → Accounted s) ?_ h fun _ => accounted_loaded
  intro s a t hst hs hexit
  cases a with
  | read =>
    simp only [step, Option.ite_none_right_eq_some, Option.some.injEq] at hst
    obtain ⟨hbefore,rfl⟩ := hst
    obtain ⟨hheard,hsupply,hcount⟩ := hs hbefore
    refine ⟨fun r hr => ?_,by simpa [ReadPc.isFinished] using hsupply,hcount⟩
    obtain hold | rfl := by simpa using hr
    · exact hheard r hold
    · trivial
  | notify i => exact accounted_notify hst (hs ((globalmemRead_exit hst).symm.trans hexit))
  | wait => exact accounted_wait hst (hs ((waitFunction_exit hst).symm.trans hexit))
  | wait2 => exact accounted_wait2 hst (hs ((waitFunction2_exit hst).symm.trans hexit))
  | exit => exact absurd hexit (globalmemExit_ne hst)

/-- No notification is lost and none is invented. Before the unloading, for every read that is
through, `wait_function2` has returned from `wait_for_completion` since that read's test or has
a completion pending; and it counts no more events than there were reads. -/
theorem notification_not_lost {acts : List Act} {s : State} (h : run step loaded acts = some s)
    (hexit : s.exit = .before) :
    (∀ seen, .finished seen ∈ s.reads → seen < s.returns ∨ 0 < s.done) ∧
      s.completionCount ≤ s.reads.length := by
  obtain ⟨hheard,hsupply,hcount⟩ := accounted_run h hexit
  constructor
  · intro seen hr
    exact (hheard _ hr).imp_right And.right
  · have hall : s.reads.countP ReadPc.isFinished ≤ s.reads.length := List.countP_le_length
    omega

/-- Two reads find no completion pending and both call `complete`; a third one finds theirs. -/
theorem notification_not_lost_coalesced : ∃ acts s, run step loaded acts = some s ∧
    s.reads = [.finished 0,.finished 0,.finished 1] ∧ s.done = 1 ∧ s.exit = .before ∧
    (∀ seen, .finished seen ∈ s.reads → seen < s.returns ∨ 0 < s.done) ∧
      s.completionCount ≤ s.reads.length := by
  obtain ⟨s,hs,hp⟩ := exists_of_run_any step loaded
    [.read,.read,.notify 0,.notify 1,.notify 0,.notify 1,.notify 0,.notify 1,.wait2,.read,.notify 2,.notify 2]
    (fun s => s.reads = [.finished 0,.finished 0,.finished 1] ∧ s.done = 1 ∧ s.exit = .before) (by decide)
  simp only [decide_eq_true_eq] at hp
  exact ⟨_,s,hs,hp.1,hp.2.1,hp.2.2,notification_not_lost hs hp.2.2⟩

end Notification

section Unload

/-- The first thread sleeps and nothing has changed that would make it go on. -/
def Blocked (s : State) : Prop := s.wait = .schedule ∧ s.task = .interruptible ∧ s.waitQueueFlag = 0

/-- The second thread is in `wait_for_completion` with no completion pending. -/
def Blocked2 (s : State) : Prop := s.wait2 = .waitForCompletion ∧ s.done = 0

/-- The thread has tested the flag for an event and has not reset it yet. -/
def WaitPc.resets : WaitPc → Bool
  | .print | .resetFlag => true
  | _ => false

@[inherit_doc WaitPc.resets]
def Wait2Pc.resets : Wait2Pc → Bool
  | .print | .resetFlag => true
  | _ => false

/-- `globalmem_exit` does not set `completion_flag` while the second thread is about to reset it. -/
def Heeded (s : State) : Act → Prop
  | .exit => s.exit = .setCompletionFlag → s.wait2.resets = false
  | _ => True

def ExitPc.flagSet : ExitPc → Bool
  | .before | .setWaitQueueFlag => false
  | _ => true

def ExitPc.woken : ExitPc → Bool
  | .before | .setWaitQueueFlag | .wakeUp => false
  | _ => true

def ExitPc.completionFlagSet : ExitPc → Bool
  | .completionDone | .complete | .returned => true
  | _ => false

/-- The first thread never gets past its test with another flag than 2, and once woken it does not
go back to sleep; the second one keeps the flag that `globalmem_exit` left. -/
structure Inv (s : State) : Prop where
  flag : s.waitQueueFlag = if s.exit.flagSet then 2 else 0
  wait : s.wait.resets = false
  tested : s.wait = .testFlag → s.exit.flagSet = true
  queued : s.task = .interruptible → s.queued = true
  woken : s.exit.woken = true → s.wait = .schedule → s.task = .running
  reads : s.exit ≠ .before → s.reads.all ReadPc.isFinished = true
  flag2 : s.exit.completionFlagSet = true → s.completionFlag = 2 ∧ s.wait2.resets = false
  signalled : s.exit = .returned → s.wait2 = .waitForCompletion → 0 < s.done

theorem inv_loaded : Inv loaded := ⟨rfl,rfl,nofun,nofun,nofun,fun _ => rfl,nofun,nofun⟩

theorem ExitPc.flagSet_of_woken {pc : ExitPc} (h : pc.woken = true) : pc.flagSet = true := by
  cases pc <;> first | rfl | contradiction

theorem inv_wait {s t : State} (h : waitFunction s = some t) (hs : Inv s) : Inv t := by
  obtain ⟨hflag,hwait,htested,hqueued,hwoken,hreads,hflag2,hsig⟩ := hs
  have hset : s.waitQueueFlag ≠ 0 ↔ s.exit.flagSet = true := by
    rw [hflag]
    split_ifs with h <;> simp [h]
  unfold waitFunction at h
  cases hpc : s.wait with
  | waitEvent =>
    simp only [hpc, Option.some.injEq] at h
    subst h
    by_cases hf : s.waitQueueFlag ≠ 0
    · simp only [if_pos hf]
      exact ⟨hflag,rfl,fun _ => hset.mp hf,hqueued,nofun,hreads,hflag2,hsig⟩
    · simp only [if_neg hf]
      exact ⟨hflag,rfl,nofun,hqueued,nofun,hreads,hflag2,hsig⟩
  | prepareToWait =>
    simp only [hpc, Option.some.injEq] at h
    subst h
    exact ⟨hflag,rfl,nofun,fun _ => rfl,nofun,hreads,hflag2,hsig⟩
  | condition =>
    simp only [hpc] at h
    split_ifs at h with hf
    · cases h
      exact ⟨hflag,rfl,fun _ => hset.mp hf,nofun,fun _ _ => rfl,hreads,hflag2,hsig⟩
    · cases h
      refine ⟨hflag,rfl,nofun,hqueued,fun hw => ?_,hreads,hflag2,hsig⟩
      exact absurd (hset.mpr (ExitPc.flagSet_of_woken hw)) hf
  | schedule =>
    simp only [hpc, Option.ite_none_right_eq_some, Option.some.injEq] at h
    obtain ⟨-,rfl⟩ := h
    exact ⟨hflag,rfl,nofun,hqueued,nofun,hreads,hflag2,hsig⟩
  | testFlag =>
    simp only [hpc, Option.some.injEq] at h
    subst h
    have htwo : s.waitQueueFlag = 2 := by rw [hflag,htested hpc]; rfl
    simp only [if_pos htwo]
    exact ⟨hflag,rfl,nofun,hqueued,nofun,hreads,hflag2,hsig⟩
  | print | resetFlag => rw [hpc] at hwait; contradiction
  | returned => simp [hpc] at h

theorem inv_wait2 {s t : State} (h : waitFunction2 s = some t) (hs : Inv s) : Inv t := by
  obtain ⟨hflag,hwait,htested,hqueued,hwoken,hreads,hflag2,hsig⟩ := hs
  unfold waitFunction2 at h
  cases hpc : s.wait2 with
  | waitForCompletion =>
    simp only [hpc, Option.ite_none_right_eq_some, Option.some.injEq] at h
    obtain ⟨-,rfl⟩ := h
    exact ⟨hflag,hwait,htested,hqueued,hwoken,hreads,fun he => ⟨(hflag2 he).1,rfl⟩,nofun⟩
  | testFlag =>
    simp only [hpc, Option.some.injEq] at h
    subst h
    refine ⟨hflag,hwait,htested,hqueued,hwoken,hreads,fun he => ?_,fun _ hw => ?_⟩
    · simp only [if_pos (hflag2 he).1]
      exact ⟨(hflag2 he).1,rfl⟩
    · split_ifs at hw
  | print | resetFlag =>
    simp only [hpc, Option.some.injEq] at h
    subst h
    -- the thread is here only while `globalmem_exit` has not set the flag
    have hnot : s.exit.completionFlagSet = false := by
      by_contra he
      have := (hflag2 (by simpa using he)).2
      rw [hpc] at this
      contradiction
    refine ⟨hflag,hwait,htested,hqueued,hwoken,hreads,fun he => ?_,fun he => ?_⟩
    · rw [hnot] at he; contradiction
    · rw [he] at hnot; contradiction
  | returned => simp [hpc] at h

/-- Once `globalmem_exit` runs, the reads take no steps. -/
theorem globalmemRead_before {s t : State} {i : ℕ} (h : globalmemRead s i = some t) (hs : Inv s) :
    s.exit = .before := by
  by_contra hexit
  have hall := hs.reads hexit
  unfold globalmemRead at h
  cases hi : s.reads[i]? with
  | none => simp [hi] at h
  | some r =>
    have hr := List.all_eq_true.mp hall r (List.mem_of_getElem? hi)
    cases r <;> first | contradiction | simp [hi] at h

theorem inv_before {s t : State} (hs : Inv s) (hexit : t.exit = .before) (hsexit : s.exit = .before)
    (hf : t.waitQueueFlag = s.waitQueueFlag) (hw : t.wait = s.wait) (hk : t.task = s.task)
    (hq : t.queued = s.queued) : Inv t := by
  obtain ⟨hflag,hwait,htested,hqueued,-,-,-,-⟩ := hs
  refine ⟨?_,?_,?_,?_,?_,?_,?_,?_⟩
  · rw [hf,hflag,hexit,hsexit]
  · rwa [hw]
  · rw [hw,hexit,← hsexit]; exact htested
  · rw [hk,hq]; exact hqueued
  all_goals rw [hexit]; nofun

theorem inv_notify {s t : State} {i : ℕ} (h : globalmemRead s i = some t) (hs : Inv s) : Inv t := by
  have hsexit := globalmemRead_before h hs
  have hexit := (globalmemRead_exit h).trans hsexit
  unfold globalmemRead at h
  split at h <;> first | contradiction | skip
  · cases h; exact inv_before hs hexit hsexit rfl rfl rfl rfl
  · split_ifs at h <;> cases h <;> exact inv_before hs hexit hsexit rfl rfl rfl rfl
  · cases h; exact inv_before hs hexit hsexit rfl rfl rfl rfl

theorem inv_exit {s t : State} (h : globalmemExit s = some t) (hC : Heeded s .exit) (hs : Inv s) : Inv t := by
  obtain ⟨hflag,hwait,htested,hqueued,hwoken,hreads,hflag2,hsig⟩ := hs
  unfold globalmemExit at h
  cases hpc : s.exit with
  | before =>
    simp only [hpc, Option.ite_none_right_eq_some, Option.some.injEq] at h
    obtain ⟨hall,rfl⟩ := h
    rw [hpc] at hflag htested
    exact ⟨hflag,hwait,htested,hqueued,nofun,fun _ => hall,nofun,nofun⟩
  | setWaitQueueFlag =>
    simp only [hpc, Option.some.injEq] at h
    subst h
    exact ⟨rfl,hwait,fun _ => rfl,hqueued,nofun,fun _ => hreads (by rw [hpc]; nofun),nofun,nofun⟩
  | wakeUp =>
    rw [hpc] at hflag hreads
    simp only [hpc] at h
    split_ifs at h with hq
    · cases h
      exact ⟨hflag,hwait,fun _ => rfl,nofun,fun _ _ => rfl,fun _ => hreads nofun,nofun,nofun⟩
    · cases h
      refine ⟨hflag,hwait,fun _ => rfl,hqueued,fun _ _ => ?_,fun _ => hreads nofun,nofun,nofun⟩
      cases hk : s.task with
      | running => rfl
      | interruptible => exact absurd ⟨hqueued hk,hk⟩ hq
  | setCompletionFlag =>
    rw [hpc] at hflag hreads hwoken
    simp only [hpc, Option.some.injEq] at h
    subst h
    exact ⟨hflag,hwait,fun _ => rfl,hqueued,hwoken,fun _ => hreads nofun,fun _ => ⟨rfl,hC hpc⟩,nofun⟩
  | completionDone =>
    rw [hpc] at hflag hreads hwoken hflag2
    simp only [hpc, Option.some.injEq] at h
    subst h
    by_cases hd : 0 < s.done
    · simp only [if_pos hd]
      exact ⟨hflag,hwait,fun _ => rfl,hqueued,hwoken,fun _ => hreads nofun,hflag2,fun _ _ => hd⟩
    · simp only [if_neg hd]
      exact ⟨hflag,hwait,fun _ => rfl,hqueued,hwoken,fun _ => hreads nofun,hflag2,nofun⟩
  | complete =>
    rw [hpc] at hflag hreads hwoken hflag2
    simp only [hpc, Option.some.injEq] at h
    subst h
    exact ⟨hflag,hwait,fun _ => rfl,hqueued,hwoken,fun _ => hreads nofun,hflag2,fun _ _ => Nat.succ_pos _⟩
  | returned => simp [hpc] at h

theorem inv_step {s t : State} {a : Act} (h : step s a = some t) (hC : Heeded s a) (hs : Inv s) : Inv t := by
  cases a with
  | read =>
    simp only [step, Option.ite_none_right_eq_some, Option.some.injEq] at h
    obtain ⟨hexit,rfl⟩ := h
    exact inv_before hs hexit hexit rfl rfl rfl rfl
  | notify i => exact inv_notify h hs
  | wait => exact inv_wait h hs
  | wait2 => exact inv_wait2 h hs
  | exit => exact inv_exit h hC hs

/-- Steps that the first thread still takes once its flag is 2. -/
def WaitPc.left : WaitPc → ℕ
  | .schedule => 4
  | .prepareToWait => 3
  | .waitEvent | .condition => 2
  | .testFlag => 1
  | .print | .resetFlag | .returned => 0

/-- Steps that the second thread still takes once its flag is 2. -/
def Wait2Pc.left : Wait2Pc → ℕ
  | .waitForCompletion => 2
  | .testFlag => 1
  | .print | .resetFlag | .returned => 0

/-- After `globalmem_exit` only the threads take steps, and each brings one of them closer to its
return. -/
theorem left_step {s t : State} {a : Act} (h : step s a = some t) (hs : Inv s) (hret : s.exit = .returned) :
    t.exit = .returned ∧ t.wait.left+t.wait2.left < s.wait.left+s.wait2.left := by
  have hflag : s.waitQueueFlag = 2 := by rw [hs.flag,hret]; rfl
  obtain ⟨hflag2,hresets⟩ := hs.flag2 (by rw [hret]; rfl)
  cases a with
  | read => simp [step, hret] at h
  | notify i =>
    have hbefore := globalmemRead_before h hs
    rw [hret] at hbefore
    contradiction
  | exit => simp [step, globalmemExit, hret] at h
  | wait =>
    have hkeep := (waitFunction_exit h).trans hret
    simp only [step, waitFunction] at h
    cases hpc : s.wait with
    | print | resetFlag =>
      have := hs.wait
      rw [hpc] at this
      contradiction
    | returned => simp [hpc] at h
    | schedule =>
      simp only [hpc, Option.ite_none_right_eq_some, Option.some.injEq] at h
      obtain ⟨-,rfl⟩ := h
      exact ⟨hkeep,by simp [WaitPc.left]⟩
    | _ =>
      simp only [hpc, hflag, ne_eq, OfNat.ofNat_ne_zero, not_false_eq_true, if_true, Option.some.injEq] at h
      subst h
      exact ⟨hkeep,by simp [WaitPc.left]⟩
  | wait2 =>
    have hkeep := (waitFunction2_exit h).trans hret
    simp only [step, waitFunction2] at h
    cases hpc : s.wait2 with
    | waitForCompletion =>
      simp only [hpc, Option.ite_none_right_eq_some, Option.some.injEq] at h
      obtain ⟨-,rfl⟩ := h
      exact ⟨hkeep,by simp [Wait2Pc.left]⟩
    | testFlag =>
      simp only [hpc, hflag2, if_true, Option.some.injEq] at h
      subst h
      exact ⟨hkeep,by simp [Wait2Pc.left]⟩
    | print | resetFlag => rw [hpc] at hresets; contradiction
    | returned => simp [hpc] at h

/-- Neither thread is stuck: when no step is left, both have returned. -/
theorem returned_of_stuck {s : State} (hs : Inv s) (hret : s.exit = .returned)
    (hstuck : ∀ a, step s a = none) : s.wait = .returned ∧ s.wait2 = .returned := by
  constructor
  · have hnone := hstuck .wait
    have hwait := hs.wait
    simp only [step, waitFunction] at hnone
    cases hpc : s.wait with
    | returned => rfl
    | schedule => simp [hpc, hs.woken (by rw [hret]; rfl) hpc] at hnone
    | condition => simp [hpc] at hnone; split_ifs at hnone
    | _ => simp [hpc] at hnone
  · have hnone := hstuck .wait2
    simp only [step, waitFunction2] at hnone
    cases hpc : s.wait2 with
    | returned => rfl
    | waitForCompletion => simp [hpc, hs.signalled hret hpc] at hnone
    | _ => simp [hpc] at hnone

theorem left_run {s t : State} {acts : List Act} (h : run step s acts = some t) (hs : Inv s)
    (hret : s.exit = .returned) :
    Inv t ∧ t.exit = .returned ∧ acts.length+(t.wait.left+t.wait2.left) ≤ s.wait.left+s.wait2.left := by
  induction acts generalizing s with
  | nil => cases h; exact ⟨hs,hret,by simp⟩
  | cons a acts ih =>
    obtain ⟨m,hm,hrest⟩ := run_cons_eq_some.mp h
    obtain ⟨hexit,hless⟩ := left_step hm hs hret
    have hC : Heeded s a := by
      cases a with
      | exit => intro hpc; rw [hret] at hpc; contradiction
      | _ => trivial
    obtain ⟨hinv,hexit',hlen⟩ := ih hrest (inv_step hm hC hs) hexit
    refine ⟨hinv,hexit',?_⟩
    rw [List.length_cons]
    omega

theorem WaitPc.left_le (pc : WaitPc) : pc.left ≤ 4 := by cases pc <;> decide

theorem Wait2Pc.left_le (pc : Wait2Pc) : pc.left ≤ 2 := by cases pc <;> decide

theorem not_blocked {s : State} (hs : Inv s) (hret : s.exit = .returned) : ¬ Blocked s ∧ ¬ Blocked2 s := by
  constructor
  · rintro ⟨-,-,hflag⟩
    rw [hs.flag,hret] at hflag
    contradiction
  · rintro ⟨hpc,hdone⟩
    have := hs.signalled hret hpc
    omega

/-- In a run in which the second thread is never caught between its test and its reset, both
threads get the request: whatever happens after `globalmem_exit` has returned, neither is blocked,
and after at most six steps both have returned. -/
theorem unload_request_reaches {acts : List Act} {s : State} (hC : Meets step Heeded loaded acts)
    (h : run step loaded acts = some s) (hret : s.exit = .returned) (more : List Act) (t : State)
    (ht : run step s more = some t) : ¬ Blocked t ∧ ¬ Blocked2 t ∧ more.length ≤ 6 ∧
      ((∀ a, step t a = none) → t.wait = .returned ∧ t.wait2 = .returned) := by
  have hs : Inv s := run_invariant_of_meets (fun _ _ _ => inv_step) hC h inv_loaded
  obtain ⟨hinv,hexit,hlen⟩ := left_run ht hs hret
  obtain ⟨hblocked,hblocked2⟩ := not_blocked hinv hexit
  refine ⟨hblocked,hblocked2,?_,returned_of_stuck hinv hexit⟩
  have := s.wait.left_le
  have := s.wait2.left_le
  omega

def heeded (s : State) : Act → Bool
  | .exit => s.exit ≠ .setCompletionFlag || !s.wait2.resets
  | _ => true

theorem heeded_iff (s : State) (a : Act) : heeded s a = true ↔ Heeded s a := by
  cases a <;> simp [heeded, Heeded, imp_iff_not_or]

/-- The first thread is asleep and the second one has counted an event when the requests come. -/
theorem unload_request_reaches_one_read : ∃ acts s more t, run step loaded acts = some s ∧
    s.exit = .returned ∧ run step s more = some t ∧ t.completionCount = 1 ∧ t.wait = .returned ∧
    ¬ Blocked t ∧ ¬ Blocked2 t ∧ more.length ≤ 6 ∧
      ((∀ a, step t a = none) → t.wait = .returned ∧ t.wait2 = .returned) := by
  let acts : List Act := [.wait,.wait,.wait,.read,.notify 0,.notify 0,.notify 0,.wait2,.wait2,.wait2,
    .exit,.exit,.exit,.wait2,.exit,.exit,.exit]
  let more : List Act := [.wait,.wait,.wait,.wait]
  obtain ⟨t,ht,hp⟩ := exists_of_run_any step loaded (acts ++ more)
    (fun t => t.completionCount = 1 ∧ t.wait = .returned ∧ t.exit = .returned) (by decide)
  obtain ⟨s,hs,hst⟩ := run_append_eq_some.mp ht
  obtain ⟨s',hs',hret⟩ := exists_of_run_any step loaded acts (fun s => s.exit = .returned) (by decide)
  cases hs.symm.trans hs'
  simp only [decide_eq_true_eq] at hp hret
  have hC : Meets step Heeded loaded acts := meets_of_check heeded (fun s a => (heeded_iff s a).mp) (by decide)
  exact ⟨acts,s,more,t,hs,hret,hst,hp.1,hp.2.1,unload_request_reaches hC hs hret more t hst⟩

/-- The second thread resets the flag over the request and waits for ever. -/
theorem request_overwritten : ¬ ∀ acts s, run step loaded acts = some s → s.exit = .returned →
    ¬ Blocked s ∧ ¬ Blocked2 s := by
  intro h
  obtain ⟨s,hs,hp⟩ := exists_of_run_any step loaded [.read,.notify 0,.notify 0,.notify 0,.wait2,.wait2,
      .exit,.exit,.exit,.exit,.wait2,.wait2,.exit,.exit,.wait2,.wait2,.wait2,.wait2]
    (fun s => s.exit = .returned ∧ s.wait2 = .waitForCompletion ∧ s.done = 0) (by decide)
  simp only [decide_eq_true_eq] at hp
  exact (h _ s hs hp.1).2 hp.2

/-- With its flag reset, the second thread consumes what is pending and then waits. -/
theorem blocks_with_flag_reset {d : ℕ} {s : State} (hd : s.done = d) (hpc : s.wait2 = .waitForCompletion)
    (hflag : s.completionFlag = 0) (hret : s.exit = .returned) :
    ∃ acts t, run step s acts = some t ∧ t.exit = .returned ∧ Blocked2 t := by
  induction d generalizing s with
  | zero => exact ⟨[],s,rfl,hret,hpc,hd⟩
  | succ d ih =>
    let u : State := {s with
      done := d
      returns := s.returns+1
      completionCount := (s.completionCount+1)%2^32
      completionFlag := 0
      wait2 := .waitForCompletion}
    have hu : run step s [.wait2,.wait2,.wait2,.wait2] = some u := by
      simp [run, step, waitFunction2, hpc, hd, hflag, u]
    obtain ⟨acts,t,ht,hblocked⟩ := ih (s := u) rfl rfl rfl hret
    exact ⟨_,t,run_append_eq_some.mpr ⟨u,hu,ht⟩,hblocked⟩

/-- When `globalmem_exit` sets the flag while the second thread is about to reset it, the run can
be continued to a state in which that thread is blocked for good. -/
theorem blocks_of_not_heeded {s : State} (hexit : s.exit = .setCompletionFlag) (hC : s.wait2.resets = true) :
    ∃ acts t, run step s (.exit::acts) = some t ∧ t.exit = .returned ∧ Blocked2 t := by
  -- the thread resets the flag before `globalmem_exit` goes on
  obtain ⟨acts,u,hu,hpc,hflag,hexitu⟩ : ∃ acts u, run step s (.exit::acts) = some u ∧
      u.wait2 = .waitForCompletion ∧ u.completionFlag = 0 ∧ u.exit = .completionDone := by
    cases hw : s.wait2 with
    | print =>
      exact ⟨[.wait2,.wait2],_,by simp [run, step, globalmemExit, waitFunction2, hexit, hw]; rfl,rfl,rfl,rfl⟩
    | resetFlag =>
      exact ⟨[.wait2],_,by simp [run, step, globalmemExit, waitFunction2, hexit, hw]; rfl,rfl,rfl,rfl⟩
    | waitForCompletion | testFlag | returned => rw [hw] at hC; contradiction
  obtain ⟨bs,v,hv,hpcv,hflagv,hret⟩ : ∃ bs v, run step u bs = some v ∧
      v.wait2 = .waitForCompletion ∧ v.completionFlag = 0 ∧ v.exit = .returned := by
    by_cases hd : 0 < u.done
    · exact ⟨[.exit],{u with exit := .returned},by simp [run, step, globalmemExit, hexitu, hd],hpc,hflag,rfl⟩
    · exact ⟨[.exit,.exit],{u with done := u.done+1, exit := .returned},
        by simp [run, step, globalmemExit, hexitu, hd],hpc,hflag,rfl⟩
  obtain ⟨cs,t,ht,hblocked⟩ := blocks_with_flag_reset rfl hpcv hflagv hret
  refine ⟨acts ++ (bs ++ cs),t,?_,hblocked⟩
  exact run_append_eq_some.mpr ⟨u,hu,run_append_eq_some.mpr ⟨v,hv,ht⟩⟩

end Unload

end ExampleKernel.GlobalMem.Waiters
