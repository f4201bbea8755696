import ExampleKernel.Timers.Second

/-! Unloading a module that has a self-re-arming kernel timer and a self-restarting hrtimer:
simple_timer and globalmem. -/
namespace ExampleKernel.Timers
open ExampleKernel.Foundation ExampleKernel.Kernel

/-- The calls of an exit function that concern its timers. -/
inductive Op
  | delTimer
  | hrtimerCancel
  deriving DecidableEq

/-- `simple_timer_exit`. -/
def simpleTimerExit : List Op := [.delTimer,.hrtimerCancel]

/-- `globalmem_exit`. -/
def globalmemExit : List Op := [.hrtimerCancel,.delTimer]

/-- `rest` are the calls that the exit function has still before it. -/
structure State where
  timer : Timer
  hrtimer : Timer
  rest : List Op

/-- `fire` to `finish` are the steps of `timer_callback`, `hrFire` and `hrRestart` those of
`hr_timer_callback`, which ends with `HRTIMER_RESTART`. -/
inductive Act
  | fire
  | modTimer
  | finish
  | hrFire
  | hrRestart
  | exit

def step (s : State) : Act → Option State
  | .fire => s.timer.fire.map fun t => {s with timer := t}
  | .modTimer => s.timer.rearm.map fun t => {s with timer := t}
  | .finish => s.timer.finish.map fun t => {s with timer := t}
  | .hrFire => s.hrtimer.fire.map fun t => {s with hrtimer := t}
  | .hrRestart => s.hrtimer.restart.map fun t => {s with hrtimer := t}
  | .exit =>
    match s.rest with
    | [] => none
    | .delTimer::ops => some {s with timer := s.timer.delTimer, rest := ops}
    | .hrtimerCancel::ops => s.hrtimer.cancel.map fun t => {s with hrtimer := t, rest := ops}

/-- Both timers started by the init function. -/
def loaded (exit : List Op) : State := ⟨⟨true,.idle⟩,⟨true,.idle⟩,exit⟩

/-- `timer_callback` does not run when `del_timer` is called. -/
def Drained (s : State) : Act → Prop
  | .exit => s.rest.head? = some .delTimer → s.timer.handler = .idle
  | _ => True

/-- What has been torn down is dead. -/
structure Inv (s : State) : Prop where
  timer : .delTimer ∈ s.rest ∨ s.timer.Dead
  hrtimer : .hrtimerCancel ∈ s.rest ∨ s.hrtimer.Dead

theorem inv_step {s t : State} {a : Act} (h : step s a = some t) (hC : Drained s a) (hs : Inv s) : Inv t := by
  obtain ⟨htimer,hhr⟩ := hs
  cases a with
  | fire =>
    simp only [step, Option.map_eq_some_iff] at h
    obtain ⟨u,hu,rfl⟩ := h
    exact ⟨.inl (htimer.resolve_right (Timer.not_dead_of_fire hu)),hhr⟩
  | modTimer =>
    simp only [step, Option.map_eq_some_iff] at h
    obtain ⟨u,hu,rfl⟩ := h
    exact ⟨.inl (htimer.resolve_right (Timer.not_dead_of_rearm hu)),hhr⟩
  | finish =>
    simp only [step, Option.map_eq_some_iff] at h
    obtain ⟨u,hu,rfl⟩ := h
    exact ⟨.inl (htimer.resolve_right (Timer.not_dead_of_finish hu)),hhr⟩
  | hrFire =>
    simp only [step, Option.map_eq_some_iff] at h
    obtain ⟨u,hu,rfl⟩ := h
    exact ⟨htimer,.inl (hhr.resolve_right (Timer.not_dead_of_fire hu))⟩
  | hrRestart =>
    simp only [step, Option.map_eq_some_iff] at h
    obtain ⟨u,hu,rfl⟩ := h
    exact ⟨htimer,.inl (hhr.resolve_right (Timer.not_dead_of_restart hu))⟩
  | exit =>
    simp only [step] at h
    split at h
    · contradiction
    · rename_i ops hrest
      cases h
      simp only [hrest, List.mem_cons, reduceCtorEq, false_or] at hhr
      exact ⟨.inr (Timer.delTimer_dead_iff.mpr (hC (by rw [hrest]; rfl))),hhr⟩
    · rename_i ops hrest
      simp only [Option.map_eq_some_iff] at h
      obtain ⟨u,hu,rfl⟩ := h
      simp only [hrest, List.mem_cons, reduceCtorEq, false_or] at htimer
      exact ⟨htimer,.inr (Timer.cancel_dead hu)⟩

/-- An exit function that deletes both timers leaves both dead, if it does not meet the handler. -/
theorem dead_of_drained {ops : List Op} {acts : List Act} {s : State} (hdel : .delTimer ∈ ops)
    (hcancel : .hrtimerCancel ∈ ops) (hC : Meets step Drained (loaded ops) acts)
    (h : run step (loaded ops) acts = some s) (hret : s.rest = []) : s.timer.Dead ∧ s.hrtimer.Dead := by
  obtain ⟨htimer,hhr⟩ := run_invariant_of_meets (fun _ _ _ => inv_step) hC h ⟨.inl hdel,.inl hcancel⟩
  simp only [hret, List.not_mem_nil, false_or] at htimer hhr
  exact ⟨htimer,hhr⟩

/-- Self-re-arming timers are dead after teardown, in each of the three drivers, in every run in
which the deleting `del_timer` does not meet the handler. -/
theorem timers_dead_after_teardown {ops : List Op} (hops : ops = simpleTimerExit ∨ ops = globalmemExit)
    {acts : List Act} {s : State} (h : run step (loaded ops) acts = some s)
    {secondActs : List Second.Act} {t : Second.State} (ht : run Second.step Second.loaded secondActs = some t) :
    (Always Second.step Second.Stopped Second.loaded secondActs ↔
      Meets Second.step Second.Drained Second.loaded secondActs) ∧
    (Meets step Drained (loaded ops) acts → s.rest = [] → s.timer.Dead ∧ s.hrtimer.Dead) := by
  constructor
  · exact Second.always_stopped_iff ht
  · intro hC hret
    obtain rfl | rfl := hops
    · exact dead_of_drained (by decide) (by decide) hC h hret
    · exact dead_of_drained (by decide) (by decide) hC h hret

def drained (s : State) : Act → Bool
  | .exit => s.rest.head? ≠ some .delTimer || s.timer.handler = .idle
  | _ => true

theorem drained_iff (s : State) (a : Act) : drained s a = true ↔ Drained s a := by
  cases a <;> simp [drained, Drained, imp_iff_not_or]

/-- Each driver is torn down after its handler has run once. -/
theorem timers_dead_after_teardown_once : ∃ secondActs t, run Second.step Second.loaded secondActs = some t ∧
    t.files = [.closed] ∧ t.counter = 1 ∧ ∀ ops, ops = simpleTimerExit ∨ ops = globalmemExit →
      ∃ acts s, run step (loaded ops) acts = some s ∧ s.rest = [] ∧
        Always Second.step Second.Stopped Second.loaded secondActs ∧ s.timer.Dead ∧ s.hrtimer.Dead := by
  let secondActs : List Second.Act :=
    [.start,.open 0,.open 0,.open 0,.fire,.modTimer,.atomicInc,.finish,.release 0]
  obtain ⟨t,ht,hclosed⟩ := exists_of_run_any Second.step Second.loaded secondActs
    (fun t => t.files = [.closed] ∧ t.counter = 1) (by decide)
  simp only [decide_eq_true_eq] at hclosed
  have hdrained : Meets Second.step Second.Drained Second.loaded secondActs :=
    meets_of_check (fun s a => decide (Second.Drained s a)) (fun _ _ h => of_decide_eq_true h) (by decide)
  refine ⟨secondActs,t,ht,hclosed.1,hclosed.2,?_⟩
  let acts : List Act := [.fire,.modTimer,.finish,.hrFire,.hrRestart,.exit,.exit]
  rintro ops hops
  obtain ⟨s,hs,hret⟩ := exists_of_run_any step (loaded ops) acts (fun s => s.rest = [])
    (by obtain rfl | rfl := hops <;> decide)
  simp only [decide_eq_true_eq] at hret
  have hC : Meets step Drained (loaded ops) acts :=
    meets_of_check drained (fun s a => (drained_iff s a).mp) (by obtain rfl | rfl := hops <;> decide)
  obtain ⟨hsecond,hdead⟩ := timers_dead_after_teardown hops hs ht
  exact ⟨acts,s,hs,hret,hsecond.mpr hdrained,hdead hC hret⟩

/-- A handler that has started before `del_timer` re-arms the timer after it. -/
theorem handler_outlives_teardown :
    (∃ acts s, run Second.step Second.loaded acts = some s ∧ (∀ f ∈ s.files, f = .closed) ∧
      s.timer.pending = true) ∧
    ∀ ops, ops = simpleTimerExit ∨ ops = globalmemExit → ∃ acts s, run step (loaded ops) acts = some s ∧
      s.rest = [] ∧ s.timer.pending = true := by
  constructor
  · obtain ⟨s,hs,hp⟩ := exists_of_run_any Second.step Second.loaded
      [.start,.open 0,.open 0,.open 0,.fire,.release 0,.modTimer,.atomicInc,.finish]
      (fun s => (∀ f ∈ s.files, f = .closed) ∧ s.timer.pending = true) (by decide)
    simp only [decide_eq_true_eq] at hp
    exact ⟨_,s,hs,hp⟩
  · rintro ops hops
    obtain ⟨s,hs,hp⟩ := exists_of_run_any step (loaded ops) [.fire,.exit,.exit,.modTimer,.finish]
      (fun s => s.rest = [] ∧ s.timer.pending = true) (by obtain rfl | rfl := hops <;> decide)
    simp only [decide_eq_true_eq] at hp
    exact ⟨_,s,hs,hp⟩

/-- The hrtimer's handler never re-arms it itself. -/
theorem hrtimer_not_rearmed {ops : List Op} {acts : List Act} {s : State}
    (h : run step (loaded ops) acts = some s) : s.hrtimer.handler ≠ .rearmed := by
  refine run_invariant (I := fun s => s.hrtimer.handler ≠ .rearmed) ?_ h (by simp [loaded])
  intro s a t hst hs
  cases a <;> simp only [step, Option.map_eq_some_iff] at hst
  case exit =>
    split at hst
    · contradiction
    · cases hst; exact hs
    · simp only [Timer.cancel, Option.map_eq_some_iff, Option.ite_none_right_eq_some, Option.some.injEq] at hst
      obtain ⟨_,⟨-,rfl⟩,rfl⟩ := hst
      exact hs
  case hrFire | hrRestart =>
    simp only [Timer.fire, Timer.restart, Option.ite_none_right_eq_some, Option.some.injEq] at hst
    obtain ⟨_,⟨-,rfl⟩,rfl⟩ := hst
    simp
  all_goals obtain ⟨_,-,rfl⟩ := hst; exact hs

/-- The exit function can return before the handler of the timer takes another step. -/
theorem exit_first {ops : List Op} {s : State} (hrest : s.rest = ops) (hhr : s.hrtimer.handler ≠ .rearmed) :
    ∃ acts t, run step s acts = some t ∧ t.rest = [] ∧ t.timer.handler = s.timer.handler := by
  induction ops generalizing s with
  | nil => exact ⟨[],s,rfl,hrest,rfl⟩
  | cons op ops ih =>
    cases op with
    | delTimer =>
      obtain ⟨acts,t,ht,hret,hhandler⟩ := ih (s := {s with timer := s.timer.delTimer, rest := ops}) rfl hhr
      exact ⟨.exit::acts,t,run_cons_eq_some.mpr ⟨_,by simp [step, hrest],ht⟩,hret,hhandler⟩
    | hrtimerCancel =>
      -- `hrtimer_cancel` waits for a running callback
      obtain ⟨bs,u,hu,hidle,hrestu,htimeru⟩ : ∃ bs u, run step s bs = some u ∧ u.hrtimer.handler = .idle ∧
          u.rest = s.rest ∧ u.timer = s.timer := by
        cases hpc : s.hrtimer.handler with
        | idle => exact ⟨[],s,rfl,hpc,rfl,rfl⟩
        | entered =>
          exact ⟨[.hrRestart],{s with hrtimer := ⟨true,.idle⟩},by simp [run, step, Timer.restart, hpc],rfl,rfl,rfl⟩
        | rearmed => exact absurd hpc hhr
      obtain ⟨acts,t,ht,hret,hhandler⟩ := ih (s := {u with hrtimer := u.hrtimer.delTimer, rest := ops}) rfl
        (by show u.hrtimer.handler ≠ _; simp [hidle])
      have hcancel : step u .exit = some {u with hrtimer := u.hrtimer.delTimer, rest := ops} := by
        simp [step, hrestu, hrest, Timer.cancel, hidle]
      refine ⟨bs ++ .exit::acts,t,?_,hret,hhandler.trans (by rw [htimeru])⟩
      exact run_append_eq_some.mpr ⟨u,hu,run_cons_eq_some.mpr ⟨_,hcancel,ht⟩⟩

/-- A `del_timer` that meets the handler can be followed by a return of the exit function with the
handler still running. -/
theorem alive_of_not_drained {ops : List Op} {acts : List Act} {s t : State} (h : run step (loaded ops) acts = some s)
    (ht : step s .exit = some t) (hC : ¬ Drained s .exit) :
    ∃ more u, run step t more = some u ∧ u.rest = [] ∧ ¬ u.timer.Dead := by
  obtain ⟨hhead,hbusy⟩ : s.rest.head? = some .delTimer ∧ s.timer.handler ≠ .idle := by
    simpa [Drained] using hC
  have hbusyt : t.timer.handler = s.timer.handler := by
    simp only [step] at ht
    split at ht
    · contradiction
    · cases ht; rfl
    · rename_i hrest
      simp [hrest] at hhead
  obtain ⟨more,u,hu,hret,hhandler⟩ := exit_first rfl (hrtimer_not_rearmed (run_concat_eq_some.mpr ⟨s,h,ht⟩))
  refine ⟨more,u,hu,hret,fun hdead => hbusy ?_⟩
  rw [← hbusyt,← hhandler,hdead.2]

end ExampleKernel.Timers
