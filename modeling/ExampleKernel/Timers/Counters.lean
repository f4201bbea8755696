import ExampleKernel.Foundation.Periodic
import ExampleKernel.Foundation.Transition
import ExampleKernel.Kernel.Basic

/-! The two timers of simple_timer and globalmem against the clock: `timer_callback` sets its timer to an interval
from now, `hr_timer_callback` to the next point of its grid. -/
namespace ExampleKernel.Timers.Counters
open ExampleKernel.Foundation ExampleKernel.Kernel

/-- Rounded up to whole ticks. -/
def msecsToJiffies (hz msecs : ℕ) : ℕ := (msecs*hz+999)/1000

def ktimeSet (secs nsecs : ℕ) : ℕ := secs*1000000000+nsecs

/-- What the two modules have of their own: `HZ`, what `timer_callback` adds to `jiffies`, and the interval of
`hr_timer_callback` in nanoseconds. -/
structure Module where
  hz : ℕ
  ticks : ℕ
  interval : ℕ

/-- `TIMEOUT` is 10 ms for both timers of simple_timer. -/
def simpleTimer (hz : ℕ) : Module := ⟨hz,msecsToJiffies hz 10-1,ktimeSet 0 (10*1000*1000)⟩

/-- `TIMEOUT` is 5000 ms in globalmem, and its hrtimer has 4 seconds and `TIMEOUT_NSEC`. -/
def globalmem (hz : ℕ) : Module := ⟨hz,msecsToJiffies hz 5000,ktimeSet 4 1000000000⟩

/-- The ticks so far, taken not to wrap. -/
def Module.jiffies (m : Module) (ktime : ℕ) : ℕ := ktime*m.hz/1000000000

/-- The clock in nanoseconds, the expiry of the timer in ticks and of the hrtimer in nanoseconds, and the two
counters, which are `unsigned int`. The rest is history: when `hrtimer_start` was called, how often the callbacks
have run, and the time that they have lost by running late. -/
structure State where
  ktime : ℕ
  expires : ℕ
  hrExpires : ℕ
  timerCounter : ℕ
  hrtimerCounter : ℕ
  hrStart : Option ℕ
  fires : ℕ
  late : ℕ
  hrFires : ℕ
  missed : ℕ
  deriving DecidableEq

def unsignedInt (n : ℕ) : ℕ := n%2^32

/-- `hrtimer_forward_now`: the expiry moves by whole intervals until it is in the future. -/
def hrtimerForwardNow (expires now interval : ℕ) : ℕ :=
  if now < expires then expires else expires+interval*((now-expires)/interval+1)

/-- `timer_callback` -/
def timerCallback (m : Module) (s : State) : State := {s with
  timerCounter := unsignedInt (s.timerCounter+1)
  expires := m.jiffies s.ktime+m.ticks
  fires := s.fires+1
  late := s.late+(m.jiffies s.ktime-(s.expires+1))}

/-- `hr_timer_callback`. The first time it counts once more, in the argument of its `pr_info`. -/
def hrTimerCallback (m : Module) (s : State) : State := {s with
  hrtimerCounter :=
    if unsignedInt (s.hrtimerCounter+1) = 1 then unsignedInt (unsignedInt (s.hrtimerCounter+1)+1)
    else unsignedInt (s.hrtimerCounter+1)
  hrExpires := hrtimerForwardNow s.hrExpires s.ktime m.interval
  hrFires := s.hrFires+1
  missed := s.missed+m.interval*((s.ktime-s.hrExpires)/m.interval)}

/-- What `sysfs_show` of simple_timer prints of the two counters, both with `%d`. -/
def sysfsShow (timerCounter hrtimerCounter : ℕ) : String :=
  "jiffies timer: " ++ toString (intOf timerCounter) ++ ", hr timer: " ++ toString (intOf hrtimerCounter) ++ "\n"

inductive Act
  | wait (nsecs : ℕ)
  | hrtimerStart
  | timer
  | hrtimer
  deriving DecidableEq

/-- A timer set to a tick runs when that tick is over (so it is measured in the README), an hrtimer at its expiry;
both may run later. -/
def step (m : Module) (s : State) : Act → Option State
  | .wait nsecs => some {s with ktime := s.ktime+nsecs}
  | .hrtimerStart =>
    if s.hrStart = none then some {s with hrStart := some s.ktime, hrExpires := s.ktime+m.interval} else none
  | .timer => if s.expires < m.jiffies s.ktime then some (timerCallback m s) else none
  | .hrtimer => if s.hrStart ≠ none ∧ s.hrExpires ≤ s.ktime then some (hrTimerCallback m s) else none

/-- The module's init has called `mod_timer` at the time `start`, and not yet `hrtimer_start`: it can be preempted
in between for any time. -/
def started (m : Module) (start : ℕ) : State where
  ktime := start
  expires := m.jiffies start+m.ticks
  hrExpires := 0
  timerCounter := 0
  hrtimerCounter := 0
  hrStart := none
  fires := 0
  late := 0
  hrFires := 0
  missed := 0

/-- The hrtimer never runs a whole interval late. -/
def Prompt (m : Module) (s : State) : Act → Prop
  | .hrtimer => s.ktime < s.hrExpires+m.interval
  | _ => True

def State.timer (s : State) : Alarm := ⟨s.expires+1,s.fires,s.late⟩

def State.hrtimer (s : State) : Alarm := ⟨s.hrExpires,s.hrFires,s.missed⟩

/-- What `hrtimer_counter` holds after so many callbacks: it skips 1 every time it comes round. -/
def hrCount (n : ℕ) : ℕ := if n = 0 then 0 else unsignedInt ((n-1)%(2^32-1)+2)

structure Inv (m : Module) (start : ℕ) (s : State) : Prop where
  clock : start ≤ s.ktime
  timer : s.timer.Paced (m.jiffies start) (m.ticks+1) (m.jiffies s.ktime)
  hrtimer : ∀ hrStart, s.hrStart = some hrStart → start ≤ hrStart ∧ s.hrtimer.Paced hrStart m.interval s.ktime
  unstarted : s.hrStart = none → s.hrFires = 0 ∧ s.missed = 0
  grid : m.interval ∣ s.missed
  timerCounter : s.timerCounter = unsignedInt s.fires
  hrtimerCounter : s.hrtimerCounter = hrCount s.hrFires

section Steps
variable {m : Module} {start : ℕ} {s t : State}

theorem jiffies_mono {a b : ℕ} (h : a ≤ b) : m.jiffies a ≤ m.jiffies b :=
  Nat.div_le_div_right (Nat.mul_le_mul_right _ h)

theorem timerCallback_timer (m : Module) (s : State) :
    (timerCallback m s).timer = s.timer.relative (m.ticks+1) (m.jiffies s.ktime) := rfl

theorem hrTimerCallback_hrtimer (m : Module) {s : State} (h : s.hrExpires ≤ s.ktime) :
    (hrTimerCallback m s).hrtimer = s.hrtimer.grid m.interval s.ktime := by
  simp only [State.hrtimer, hrTimerCallback, hrtimerForwardNow, if_neg (not_lt.mpr h), Alarm.grid]

theorem hrCount_succ (n : ℕ) : hrCount (n+1) =
    if unsignedInt (hrCount n+1) = 1 then unsignedInt (unsignedInt (hrCount n+1)+1)
    else unsignedInt (hrCount n+1) := by
  unfold hrCount unsignedInt
  cases n with
  | zero => simp
  | succ n =>
    simp only [Nat.succ_ne_zero, if_false, Nat.add_sub_cancel]
    have hlt := Nat.mod_lt n (by norm_num : 0 < 2^32-1)
    have hnext : (n+1)%(2^32-1) = if n%(2^32-1)+1 = 2^32-1 then 0 else n%(2^32-1)+1 := by
      split_ifs with hround <;> omega
    rw [hnext]
    split_ifs <;> omega

theorem hrCount_of_lt {n : ℕ} (h : 0 < n) (hround : n+1 < 2^32) : hrCount n = n+1 := by
  unfold hrCount unsignedInt
  rw [if_neg (by omega),Nat.mod_eq_of_lt (by omega),Nat.mod_eq_of_lt (by omega)]
  omega

theorem inv_step {a : Act} (h : step m s a = some t) (hs : Inv m start s) : Inv m start t := by
  obtain ⟨hclock,htimer,hhr,hidle,hgrid,hcount,hhrcount⟩ := hs
  cases a with
  | wait nsecs =>
    cases h
    have hle : s.ktime ≤ s.ktime+nsecs := Nat.le_add_right _ _
    exact ⟨hclock.trans hle,htimer.mono (jiffies_mono hle),
      fun hrStart hstart => ⟨(hhr hrStart hstart).1,(hhr hrStart hstart).2.mono hle⟩,hidle,hgrid,hcount,hhrcount⟩
  | hrtimerStart =>
    simp only [step, Option.ite_none_right_eq_some, Option.some.injEq] at h
    obtain ⟨hnone,rfl⟩ := h
    obtain ⟨hfires,hmissed⟩ := hidle hnone
    refine ⟨hclock,htimer,fun hrStart hstart => ?_,fun hnone => ?_,hgrid,hcount,hhrcount⟩
    swap
    · cases hnone
    cases hstart
    refine ⟨hclock,?_,le_rfl⟩
    simp only [State.hrtimer, hfires, hmissed]
    omega
  | timer =>
    simp only [step, Option.ite_none_right_eq_some, Option.some.injEq] at h
    obtain ⟨hdue,rfl⟩ := h
    refine ⟨hclock,?_,hhr,hidle,hgrid,?_,hhrcount⟩
    · rw [timerCallback_timer]
      exact Alarm.relative_paced htimer hdue
    · simp only [timerCallback, hcount, unsignedInt, Nat.mod_add_mod]
  | hrtimer =>
    simp only [step, Option.ite_none_right_eq_some, Option.some.injEq] at h
    obtain ⟨⟨hstarted,hdue⟩,rfl⟩ := h
    refine ⟨hclock,htimer,fun hrStart hstart => ⟨(hhr hrStart hstart).1,?_⟩,fun hnone => absurd hnone hstarted,?_,
      hcount,?_⟩
    · rw [hrTimerCallback_hrtimer m hdue]
      exact Alarm.grid_paced (hhr hrStart hstart).2 hdue
    · exact Dvd.dvd.add hgrid (dvd_mul_right _ _)
    · simp only [hrTimerCallback, hhrcount]
      exact (hrCount_succ _).symm

theorem inv_started (m : Module) (start : ℕ) : Inv m start (started m start) := by
  refine ⟨le_rfl,⟨?_,?_⟩,fun hrStart hstart => ?_,fun _ => ⟨rfl,rfl⟩,dvd_zero _,rfl,rfl⟩
  · simp only [State.timer, started]
    omega
  · exact (Nat.add_assoc _ _ _).le
  · cases hstart

theorem inv_of_run {acts : List Act} (h : run (step m) (started m start) acts = some s) : Inv m start s :=
  run_invariant (fun _ _ _ => inv_step) h (inv_started m start)

theorem prompt_step {a : Act} (h : step m s a = some t) (hp : Prompt m s a) (hs : s.missed = 0) : t.missed = 0 := by
  cases a with
  | wait nsecs => cases h; exact hs
  | hrtimerStart | timer =>
    simp only [step, Option.ite_none_right_eq_some, Option.some.injEq] at h
    obtain ⟨-,rfl⟩ := h
    exact hs
  | hrtimer =>
    simp only [step, Option.ite_none_right_eq_some, Option.some.injEq] at h
    obtain ⟨-,rfl⟩ := h
    exact (Alarm.grid_prompt (a := s.hrtimer) hp).trans hs

end Steps

/-- The jiffies timer drifts by exactly what its callback has been late. The hrtimer, whenever it was started, keeps
to its grid, and loses nothing as long as it never runs a whole interval late. Neither runs ahead of the clock, and
the hrtimer, unless it is overdue, has run once for every interval that it has not missed. The counters count the
runs modulo 2^32, but `hrtimer_counter` skips 1. -/
theorem timers_keep_pace {m : Module} (hinterval : 0 < m.interval) {start : ℕ} {acts : List Act} {s : State}
    (h : run (step m) (started m start) acts = some s) :
    (s.expires+1 = m.jiffies start+(m.ticks+1)*(s.fires+1)+s.late ∧
      m.jiffies start+(m.ticks+1)*s.fires+s.late ≤ m.jiffies s.ktime) ∧
    (∀ hrStart, s.hrStart = some hrStart → start ≤ hrStart ∧
      m.interval ∣ s.hrExpires-hrStart ∧ hrStart+m.interval*s.hrFires+s.missed ≤ s.ktime ∧
      (s.ktime < s.hrExpires → s.hrFires = (s.ktime-hrStart-s.missed)/m.interval)) ∧
    (Meets (step m) (Prompt m) (started m start) acts → s.missed = 0) ∧
    s.timerCounter = unsignedInt s.fires ∧ s.hrtimerCounter = hrCount s.hrFires := by
  have hs := inv_of_run h
  refine ⟨⟨hs.timer.due,hs.timer.fires_le⟩,fun hrStart hstart => ?_,fun hmeets => ?_,hs.timerCounter,
    hs.hrtimerCounter⟩
  · obtain ⟨hle,hpaced⟩ := hs.hrtimer hrStart hstart
    refine ⟨hle,?_,hpaced.fires_le,hpaced.fires_eq hinterval⟩
    have hdue : s.hrExpires = hrStart+m.interval*(s.hrFires+1)+s.missed := hpaced.due
    rw [hdue,Nat.add_assoc,Nat.add_sub_cancel_left]
    exact (dvd_mul_right _ _).add hs.grid
  · exact run_invariant_of_meets (I := fun s => s.missed = 0) (fun _ _ _ hst hp => prompt_step hst hp) hmeets h rfl

/-- Both timers of simple_timer, with a tick of 10 ms. The hrtimer is started 3 ms after the timer, and its second
callback is 1 ms late. -/
def ticking : List Act :=
  [.wait 3000000,.hrtimerStart,.wait 10000000,.timer,.hrtimer,.wait 11000000,.hrtimer,.timer]

theorem timers_keep_pace_ticking : ∃ s, run (step (simpleTimer 100)) (started (simpleTimer 100) 0) ticking = some s ∧
    s.hrStart = some 3000000 ∧ s.hrExpires = 33000000 ∧ 10000000 ∣ s.hrExpires-3000000 := by
  obtain ⟨s,hs,hp⟩ := exists_of_run_any (step (simpleTimer 100)) (started (simpleTimer 100) 0) ticking
    (fun s => s.hrStart = some 3000000 ∧ s.hrExpires = 33000000) (by decide +kernel)
  obtain ⟨hstart,hexpires⟩ := of_decide_eq_true hp
  exact ⟨s,hs,hstart,hexpires,((timers_keep_pace (by decide) hs).2.1 3000000 hstart).2.1⟩

section SimpleTimer
variable {hz start hrStart : ℕ} {acts : List Act} {s : State}

/-- An interval of the jiffies timer of simple_timer is never shorter than its 10 ms. -/
theorem simpleTimer_ticks (hz : ℕ) : 10*hz ≤ 1000*((simpleTimer hz).ticks+1) := by
  simp only [simpleTimer, msecsToJiffies]
  omega

/-- The jiffies timer has run at most once more than 10 ms have passed. -/
theorem fires_le_elapsed (h : run (step (simpleTimer hz)) (started (simpleTimer hz) start) acts = some s) :
    s.fires ≤ (s.ktime-start)/10000000+1 := by
  have hs := inv_of_run h
  have hfires : (simpleTimer hz).jiffies start+((simpleTimer hz).ticks+1)*s.fires+s.late ≤
      (simpleTimer hz).jiffies s.ktime := hs.timer.fires_le
  have hclock := hs.clock
  have hticks := simpleTimer_ticks hz
  -- the ticks of the clock are at most one more than the time passed makes up for
  have helapsed : 1000000000*((simpleTimer hz).jiffies s.ktime-(simpleTimer hz).jiffies start) ≤
      (s.ktime-start)*hz+1000000000 := by
    have hsplit : s.ktime*hz = start*hz+(s.ktime-start)*hz := by
      rw [← Nat.add_mul]
      congr 1
      omega
    have hz' : (simpleTimer hz).hz = hz := rfl
    simp only [Module.jiffies, hz']
    omega
  by_contra hlt
  obtain ⟨f,hf⟩ : ∃ f, s.fires = f+1 := ⟨s.fires-1,by omega⟩
  have hshort : s.ktime-start+1 ≤ 10000000*f := by omega
  have hT := Nat.mul_le_mul_right ((simpleTimer hz).ticks+1) hshort
  have hhz : (s.ktime-start)*hz ≤ (s.ktime-start)*(100*((simpleTimer hz).ticks+1)) :=
    Nat.mul_le_mul_left _ (by omega)
  rw [Nat.mul_left_comm] at hhz
  rw [Nat.add_mul,Nat.one_mul,Nat.mul_assoc] at hT
  rw [hf,Nat.mul_succ,Nat.mul_comm _ f] at hfires
  omega

/-- Unless it is overdue, the hrtimer has run or missed every 10 ms that have passed since its start. -/
theorem hrFires_add_missed (h : run (step (simpleTimer hz)) (started (simpleTimer hz) start) acts = some s)
    (hstart : s.hrStart = some hrStart) (hdue : s.ktime < s.hrExpires) :
    s.hrFires+s.missed/10000000 = (s.ktime-hrStart)/10000000 := by
  have hs := inv_of_run h
  have hinterval : (simpleTimer hz).interval = 10000000 := rfl
  obtain ⟨-,hpaced⟩ := hs.hrtimer hrStart hstart
  have hdvd := hs.grid
  have hle := hpaced.fires_le
  have hsum := hpaced.fires_eq (show 0 < 10000000 by decide) hdue
  rw [hinterval] at hdvd hle hsum
  simp only [State.hrtimer] at hle hsum
  omega

/-- Until it wraps, `timer_counter` counts the runs. -/
theorem timerCounter_eq (h : run (step (simpleTimer hz)) (started (simpleTimer hz) start) acts = some s)
    (hround : s.ktime-start < 10000000*(2^31-2)) : s.timerCounter = s.fires ∧ s.fires < 2^31 := by
  have hlt : s.fires < 2^31 := by
    have hfires := fires_le_elapsed h
    omega
  exact ⟨(inv_of_run h).timerCounter.trans (Nat.mod_eq_of_lt (hlt.trans (by decide))),hlt⟩

/-- Until it wraps, `hrtimer_counter` is one ahead of the runs. -/
theorem hrtimerCounter_eq (h : run (step (simpleTimer hz)) (started (simpleTimer hz) start) acts = some s)
    (hstart : s.hrStart = some hrStart) (hran : 0 < s.hrFires) (hround : s.ktime-hrStart < 10000000*(2^31-2)) :
    s.hrtimerCounter = s.hrFires+1 ∧ s.hrFires+1 < 2^31 := by
  have hlt : s.hrFires+1 < 2^31 := by
    have hle := ((inv_of_run h).hrtimer hrStart hstart).2.fires_le
    have hinterval : (simpleTimer hz).interval = 10000000 := rfl
    rw [hinterval] at hle
    simp only [State.hrtimer] at hle
    omega
  exact ⟨(inv_of_run h).hrtimerCounter.trans (hrCount_of_lt hran (hlt.trans (by decide))),hlt⟩

theorem toString_intOf {n : ℕ} (h : n < 2^31) : toString (intOf n) = toString n := by
  rw [intOf_of_lt h]
  rfl

end SimpleTimer

/-- What `sysfs_show` of simple_timer prints when it loads `timer_counter` in the state `s` and `hrtimer_counter` in
the state `t`, whichever it loads first: the two counts, as long as they are within `int`; and once the hrtimer has
run, and unless it is overdue, the first count is ahead of the second at most by the intervals that the hrtimer has
missed and those that begin between the two starts, and between the two loads if the hrtimer's is the first. -/
theorem counts_in_order {hz start hrStart : ℕ} {acts acts' : List Act} {s t : State}
    (hs : run (step (simpleTimer hz)) (started (simpleTimer hz) start) acts = some s)
    (ht : run (step (simpleTimer hz)) (started (simpleTimer hz) start) acts' = some t)
    (hstart : t.hrStart = some hrStart) (hran : 0 < t.hrFires) (hdue : t.ktime < t.hrExpires)
    (hround : s.ktime-start < 10000000*(2^31-2)) (hhrround : t.ktime-hrStart < 10000000*(2^31-2)) :
    sysfsShow s.timerCounter t.hrtimerCounter =
      "jiffies timer: " ++ toString s.timerCounter ++ ", hr timer: " ++ toString t.hrtimerCounter ++ "\n" ∧
    s.timerCounter ≤ t.hrtimerCounter+t.missed/10000000+((hrStart-start)+(s.ktime-t.ktime)+9999999)/10000000 := by
  obtain ⟨hcount,hlt⟩ := timerCounter_eq hs hround
  obtain ⟨hhrcount,hhrlt⟩ := hrtimerCounter_eq ht hstart hran hhrround
  have hfires := fires_le_elapsed hs
  have hhr := hrFires_add_missed ht hstart hdue
  rw [← hcount] at hlt hfires
  rw [← hhrcount] at hhrlt
  constructor
  · unfold sysfsShow
    rw [toString_intOf hlt,toString_intOf hhrlt]
  · omega

theorem counts_in_order_ticking : ∃ s, run (step (simpleTimer 100)) (started (simpleTimer 100) 0) ticking = some s ∧
    s.timerCounter = 2 ∧ sysfsShow s.timerCounter s.hrtimerCounter = "jiffies timer: 2, hr timer: 3\n" ∧
      s.timerCounter ≤ s.hrtimerCounter+s.missed/10000000+1 := by
  obtain ⟨s,hs,hp⟩ := exists_of_run_any (step (simpleTimer 100)) (started (simpleTimer 100) 0) ticking
    (fun s => s.timerCounter = 2 ∧ s.hrtimerCounter = 3 ∧ s.hrStart = some 3000000 ∧ 0 < s.hrFires ∧
      s.ktime < s.hrExpires ∧ s.ktime = 24000000) (by decide +kernel)
  obtain ⟨htwo,hthree,hstart,hran,hdue,hnow⟩ := of_decide_eq_true hp
  obtain ⟨hshown,hle⟩ := counts_in_order hs hs hstart hran hdue (by omega) (by omega)
  refine ⟨s,hs,htwo,hshown.trans ?_,hle.trans (by omega)⟩
  rw [htwo,hthree]
  decide

/-- The hrtimer is started 50 ms late, misses nothing, and is behind by as much. -/
example : (run (step (simpleTimer 100)) (started (simpleTimer 100) 0) ([.wait 10000000,.timer,.wait 10000000,.timer,
    .wait 10000000,.timer,.wait 10000000,.timer,.wait 10000000,.timer,.hrtimerStart,.wait 10000000,.hrtimer,
    .timer])).map (fun s => sysfsShow s.timerCounter s.hrtimerCounter) = some "jiffies timer: 6, hr timer: 2\n" := by
  decide +kernel

end ExampleKernel.Timers.Counters
