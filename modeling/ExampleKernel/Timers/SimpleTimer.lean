import ExampleKernel.Foundation.Transition
import ExampleKernel.Kernel.Timer

/-! Loading simple_timer. `simple_timer_init` starts its timers before the first call that can fail;
it is followed statement by statement, with the timers expiring at any point, and also after a load
that failed. -/
namespace ExampleKernel.Timers.SimpleTimer
open ExampleKernel.Foundation ExampleKernel.Kernel

inductive Directory
  | kernel | exampleSysfs
  deriving DecidableEq, Repr

/-- `file` is the attribute `sysfs_value` in a directory of sysfs, `region` a number of `dev_t`. -/
inductive Resource
  | kobject
  | file (dir : Directory)
  | region (devNo : ℕ)
  | devClass | device
  deriving DecidableEq, Repr

/-- The calls of `simple_timer_init` that can fail. -/
inductive KernelCall
  | kobjectCreateAndAdd | sysfsCreateFile | allocChrdevRegion | classCreate | deviceCreate
  deriving DecidableEq, Repr

/-- What the kernel decides in a load: which calls succeed, and the number of the region. -/
structure Env where
  ok : KernelCall → Bool
  devNo : ℕ

/-- Program points of `simple_timer_init`, each before the statement it is named after; the last four
before `returned` belong to the labels. -/
inductive Pc
  | timerSetup | modTimer | hrtimerInit | hrtimerStart
  | kobjectCreateAndAdd | sysfsCreateFile | allocChrdevRegion | classCreate | deviceCreate
  | kobjectPut | sysfsRemoveFile | classDestroy | unregisterChrdevRegion
  | returned (ret : ℤ)
  deriving DecidableEq, Repr

/-- `kobjRef` and `devClass` tell whether the pointers are not `NULL`. `strays` lists the releases of
what this load did not hold. -/
structure State where
  pc : Pc
  timer : Timer
  hrtimer : Timer
  kobjRef : Bool
  devNo : ℕ
  devClass : Bool
  held : List Resource
  strays : List Resource

def State.goto (s : State) (pc : Pc) : State := {s with pc := pc}

def State.acquire (s : State) (r : Resource) : State := {s with held := s.held ++ [r]}

def State.release (s : State) (r : Resource) : State :=
  if r ∈ s.held then {s with held := s.held.erase r} else {s with strays := s.strays ++ [r]}

@[simp] theorem release_timer (s : State) (r : Resource) : (s.release r).timer = s.timer := by
  unfold State.release; split_ifs <;> rfl

@[simp] theorem release_hrtimer (s : State) (r : Resource) : (s.release r).hrtimer = s.hrtimer := by
  unfold State.release; split_ifs <;> rfl

/-- `simple_timer_init`. `sysfs_create_file` refuses a directory that is `NULL`, and `kobject_put` and
`class_destroy` do nothing to `NULL`. -/
def simpleTimerInit (env : Env) (s : State) : Option State :=
  match s.pc with
  | .timerSetup => some {s with timer := Timer.stopped, pc := .modTimer}
  | .modTimer => some {s with timer := s.timer.modTimer, pc := .hrtimerInit}
  | .hrtimerInit => some {s with hrtimer := Timer.stopped, pc := .hrtimerStart}
  | .hrtimerStart => some {s with hrtimer := s.hrtimer.modTimer, pc := .kobjectCreateAndAdd}
  | .kobjectCreateAndAdd =>
    if env.ok .kobjectCreateAndAdd then some ({s with kobjRef := true}.acquire .kobject |>.goto .sysfsCreateFile)
    else some (s.goto .sysfsCreateFile)
  | .sysfsCreateFile =>
    if s.kobjRef && env.ok .sysfsCreateFile then
      some ((s.acquire (.file .exampleSysfs)).goto .allocChrdevRegion)
    else some (s.goto .kobjectPut)
  | .allocChrdevRegion =>
    if env.ok .allocChrdevRegion then
      some ({s with devNo := env.devNo}.acquire (.region env.devNo) |>.goto .classCreate)
    else some (s.goto (.returned (-1)))
  | .classCreate =>
    if env.ok .classCreate then some ({s with devClass := true}.acquire .devClass |>.goto .deviceCreate)
    else some (s.goto .unregisterChrdevRegion)
  | .deviceCreate =>
    if env.ok .deviceCreate then some ((s.acquire .device).goto (.returned 0)) else some (s.goto .classDestroy)
  | .kobjectPut => some ((if s.kobjRef then s.release .kobject else s).goto .sysfsRemoveFile)
  | .sysfsRemoveFile => some ((s.release (.file .kernel)).goto .classDestroy)
  | .classDestroy => some ((if s.devClass then s.release .devClass else s).goto .unregisterChrdevRegion)
  | .unregisterChrdevRegion => some ((s.release (.region s.devNo)).goto (.returned (-1)))
  | .returned _ => none

/-- `fire` to `finish` are the steps of `timer_callback`, `hrFire` and `hrRestart` those of
`hr_timer_callback`; `sysfs` is a call of `sysfs_show` or `sysfs_store`. -/
inductive Act
  | init
  | fire
  | modTimer
  | finish
  | hrFire
  | hrRestart
  | sysfs
  deriving DecidableEq

def step (env : Env) (s : State) : Act → Option State
  | .init => simpleTimerInit env s
  | .fire => s.timer.fire.map fun t => {s with timer := t}
  | .modTimer => s.timer.rearm.map fun t => {s with timer := t}
  | .finish => s.timer.finish.map fun t => {s with timer := t}
  | .hrFire => s.hrtimer.fire.map fun t => {s with hrtimer := t}
  | .hrRestart => s.hrtimer.restart.map fun t => {s with hrtimer := t}
  | .sysfs => if Resource.file .exampleSysfs ∈ s.held then some s else none

/-- The module as it comes from the file, its variables zero. -/
def start : State where
  pc := .timerSetup
  timer := Timer.stopped
  hrtimer := Timer.stopped
  kobjRef := false
  devNo := 0
  devClass := false
  held := []
  strays := []

/-- A call from outside into the code of the module. -/
def Act.enters : Act → Prop
  | .fire | .hrFire | .sysfs => True
  | _ => False

/-- No timer is armed or in its handler, and this load holds nothing and has released nothing else. -/
structure Clean (s : State) : Prop where
  timer : s.timer.Dead
  hrtimer : s.hrtimer.Dead
  held : s.held = []
  strays : s.strays = []

/-- A failed load is clean, and nothing can enter the module any more. -/
def LeavesNothing (env : Env) (s : State) : Prop :=
  s.pc = .returned (-1) → Clean s ∧ ∀ a : Act, a.enters → step env s a = none

/-- `mod_timer` has been called by the init function. -/
def Pc.timerStarted : Pc → Bool
  | .timerSetup | .modTimer => false
  | _ => true

/-- `hrtimer_start` has been called. -/
def Pc.hrtimerStarted : Pc → Bool
  | .timerSetup | .modTimer | .hrtimerInit | .hrtimerStart => false
  | _ => true

/-- The directory and the file could be created. -/
def Env.sysfs (env : Env) : Bool := env.ok .kobjectCreateAndAdd && env.ok .sysfsCreateFile

/-- Every call succeeds. -/
def Env.succeeds (env : Env) : Bool :=
  env.sysfs && env.ok .allocChrdevRegion && env.ok .classCreate && env.ok .deviceCreate

/-- What stays held when the init function returns an error. -/
def Env.leftBehind (env : Env) : List Resource := if env.sysfs then [.kobject,.file .exampleSysfs] else []

/-- What it has then released without holding it: the attribute of the wrong directory, and the number 0. -/
def Env.strays (env : Env) : List Resource := if env.sysfs then [] else [.file .kernel,.region 0]

/-- What the init function holds and has released at a program point, and which calls have succeeded. -/
def Progress (env : Env) (s : State) : Prop :=
  match s.pc with
  | .timerSetup | .modTimer | .hrtimerInit | .hrtimerStart | .kobjectCreateAndAdd =>
    s.kobjRef = false ∧ s.devClass = false ∧ s.devNo = 0 ∧ s.held = [] ∧ s.strays = []
  | .sysfsCreateFile | .kobjectPut =>
    s.kobjRef = env.ok .kobjectCreateAndAdd ∧ s.devClass = false ∧ s.devNo = 0 ∧
      s.held = (if s.kobjRef then [.kobject] else []) ∧ s.strays = [] ∧ (s.pc = .kobjectPut → env.sysfs = false)
  | .sysfsRemoveFile => env.sysfs = false ∧ s.devClass = false ∧ s.devNo = 0 ∧ s.held = [] ∧ s.strays = []
  | .allocChrdevRegion =>
    env.sysfs = true ∧ s.held = [.kobject,.file .exampleSysfs] ∧ s.strays = []
  | .classCreate => env.sysfs = true ∧ env.ok .allocChrdevRegion = true ∧
      s.held = [.kobject,.file .exampleSysfs,.region s.devNo] ∧ s.strays = []
  | .deviceCreate => env.sysfs = true ∧ env.ok .allocChrdevRegion = true ∧ env.ok .classCreate = true ∧
      s.devClass = true ∧ s.held = [.kobject,.file .exampleSysfs,.region s.devNo,.devClass] ∧ s.strays = []
  | .classDestroy => env.succeeds = false ∧
      (env.sysfs = true ∧ s.devClass = true ∧
          s.held = [.kobject,.file .exampleSysfs,.region s.devNo,.devClass] ∧ s.strays = [] ∨
        env.sysfs = false ∧ s.devClass = false ∧ s.devNo = 0 ∧ s.held = [] ∧ s.strays = [.file .kernel])
  | .unregisterChrdevRegion => env.succeeds = false ∧
      (env.sysfs = true ∧ s.held = [.kobject,.file .exampleSysfs,.region s.devNo] ∧ s.strays = [] ∨
        env.sysfs = false ∧ s.devNo = 0 ∧ s.held = [] ∧ s.strays = [.file .kernel])
  | .returned ret => ret = 0 ∧ env.succeeds = true ∨
      ret = -1 ∧ env.succeeds = false ∧ s.held = env.leftBehind ∧ s.strays = env.strays

structure Inv (env : Env) (s : State) : Prop where
  timer : s.pc.timerStarted = true → s.timer.Armed
  hrtimer : s.pc.hrtimerStarted = true → s.hrtimer.Armed
  progress : Progress env s

theorem inv_start (env : Env) : Inv env start := ⟨nofun,nofun,rfl,rfl,rfl,rfl,rfl⟩

section Steps
variable {env : Env} {s t : State}

theorem progress_init (h : simpleTimerInit env s = some t) (hs : Progress env s) : Progress env t := by
  unfold simpleTimerInit at h
  unfold Progress at hs
  cases hpc : s.pc with
  | timerSetup | modTimer | hrtimerInit | hrtimerStart =>
    simp only [hpc, Option.some.injEq] at h hs
    subst h
    exact hs
  | kobjectCreateAndAdd =>
    simp only [hpc] at h hs
    obtain ⟨hkobj,hclass,hno,hheld,hstrays⟩ := hs
    split_ifs at h with hok <;> cases h
    · exact ⟨hok.symm,hclass,hno,by simp [State.acquire, State.goto, hheld],hstrays,nofun⟩
    · exact ⟨by simp [State.goto, hkobj, hok],hclass,hno,by simp [State.goto, hkobj, hheld],hstrays,nofun⟩
  | sysfsCreateFile =>
    simp only [hpc] at h hs
    obtain ⟨hkobj,hclass,hno,hheld,hstrays,-⟩ := hs
    split_ifs at h with hok <;> cases h
    · rw [hkobj] at hok
      refine ⟨hok,?_,hstrays⟩
      rw [hkobj,(Bool.and_eq_true_iff.mp hok).1] at hheld
      simp [State.acquire, State.goto, hheld]
    · refine ⟨hkobj,hclass,hno,hheld,hstrays,fun _ => ?_⟩
      rw [hkobj] at hok
      exact Bool.eq_false_iff.mpr hok
  | allocChrdevRegion =>
    simp only [hpc] at h hs
    obtain ⟨hsysfs,hheld,hstrays⟩ := hs
    split_ifs at h with hok <;> cases h
    · exact ⟨hsysfs,hok,by simp [State.acquire, State.goto, hheld],hstrays⟩
    · refine .inr ⟨rfl,by simp [Env.succeeds, hok],?_,?_⟩
      · simp [State.goto, Env.leftBehind, hsysfs, hheld]
      · simp [State.goto, Env.strays, hsysfs, hstrays]
  | classCreate =>
    simp only [hpc] at h hs
    obtain ⟨hsysfs,halloc,hheld,hstrays⟩ := hs
    split_ifs at h with hok <;> cases h
    · exact ⟨hsysfs,halloc,hok,rfl,by simp [State.acquire, State.goto, hheld],hstrays⟩
    · exact ⟨by simp [Env.succeeds, hok],.inl ⟨hsysfs,hheld,hstrays⟩⟩
  | deviceCreate =>
    simp only [hpc] at h hs
    obtain ⟨hsysfs,halloc,hcreate,hclass,hheld,hstrays⟩ := hs
    split_ifs at h with hok <;> cases h
    · exact .inl ⟨rfl,by simp [Env.succeeds, hsysfs, halloc, hcreate, hok]⟩
    · exact ⟨by simp [Env.succeeds, hok],.inl ⟨hsysfs,hclass,hheld,hstrays⟩⟩
  | kobjectPut =>
    simp only [hpc, Option.some.injEq, true_implies] at h hs
    obtain ⟨-,hclass,hno,hheld,hstrays,hsysfs⟩ := hs
    subst h
    cases hkobj : s.kobjRef <;> rw [hkobj] at hheld
    · exact ⟨hsysfs,hclass,hno,hheld,hstrays⟩
    · have hput : (s.release .kobject) = {s with held := []} := by simp [State.release, hheld]
      rw [if_pos rfl,hput]
      exact ⟨hsysfs,hclass,hno,rfl,hstrays⟩
  | sysfsRemoveFile =>
    simp only [hpc, Option.some.injEq] at h hs
    obtain ⟨hsysfs,hclass,hno,hheld,hstrays⟩ := hs
    subst h
    have hremove : s.release (.file .kernel) = {s with strays := [.file .kernel]} := by
      simp [State.release, hheld, hstrays]
    rw [hremove]
    exact ⟨by simp [Env.succeeds, hsysfs],.inr ⟨hsysfs,hclass,hno,hheld,rfl⟩⟩
  | classDestroy =>
    simp only [hpc, Option.some.injEq] at h hs
    subst h
    obtain ⟨hfails,⟨hsysfs,hclass,hheld,hstrays⟩ | ⟨hsysfs,hclass,hno,hheld,hstrays⟩⟩ := hs
    · have hdestroy : s.release .devClass = {s with held := [.kobject,.file .exampleSysfs,.region s.devNo]} := by
        simp [State.release, hheld]
      rw [if_pos hclass,hdestroy]
      exact ⟨hfails,.inl ⟨hsysfs,rfl,hstrays⟩⟩
    · rw [hclass]
      exact ⟨hfails,.inr ⟨hsysfs,hno,hheld,hstrays⟩⟩
  | unregisterChrdevRegion =>
    simp only [hpc, Option.some.injEq] at h hs
    subst h
    refine .inr ⟨rfl,hs.1,?_⟩
    obtain ⟨-,⟨hsysfs,hheld,hstrays⟩ | ⟨hsysfs,hno,hheld,hstrays⟩⟩ := hs
    · simp [State.goto, State.release, Env.leftBehind, Env.strays, hsysfs, hheld, hstrays]
    · simp [State.goto, State.release, Env.leftBehind, Env.strays, hsysfs, hno, hheld, hstrays]
  | returned ret => simp only [hpc, reduceCtorEq] at h

/-- After `mod_timer` and `hrtimer_start` the init function leaves its timers alone. -/
theorem timers_init (h : simpleTimerInit env s = some t) :
    (t.pc.timerStarted = true → s.pc.timerStarted = false ∧ t.timer.Armed ∨
      s.pc.timerStarted = true ∧ t.timer = s.timer) ∧
    (t.pc.hrtimerStarted = true → s.pc.hrtimerStarted = false ∧ t.hrtimer.Armed ∨
      s.pc.hrtimerStarted = true ∧ t.hrtimer = s.hrtimer) := by
  unfold simpleTimerInit at h
  cases hpc : s.pc with
  | timerSetup =>
    simp only [hpc, Option.some.injEq] at h
    subst h
    exact ⟨nofun,nofun⟩
  | modTimer =>
    simp only [hpc, Option.some.injEq] at h
    subst h
    exact ⟨fun _ => .inl ⟨rfl,Timer.modTimer_armed _⟩,nofun⟩
  | hrtimerInit =>
    simp only [hpc, Option.some.injEq] at h
    subst h
    exact ⟨fun _ => .inr ⟨rfl,rfl⟩,nofun⟩
  | hrtimerStart =>
    simp only [hpc, Option.some.injEq] at h
    subst h
    exact ⟨fun _ => .inr ⟨rfl,rfl⟩,fun _ => .inl ⟨rfl,Timer.modTimer_armed _⟩⟩
  | returned ret => simp only [hpc, reduceCtorEq] at h
  | _ =>
    simp only [hpc] at h
    have hsame : t.timer = s.timer ∧ t.hrtimer = s.hrtimer := by
      (try split_ifs at h) <;> cases h <;> simp [State.goto, State.acquire]
    exact ⟨fun _ => .inr ⟨rfl,hsame.1⟩,fun _ => .inr ⟨rfl,hsame.2⟩⟩

theorem inv_step {a : Act} (h : step env s a = some t) (hs : Inv env s) : Inv env t := by
  obtain ⟨htimer,hhr,hprogress⟩ := hs
  cases a with
  | init =>
    obtain ⟨ht,hh⟩ := timers_init h
    refine ⟨fun hstarted => ?_,fun hstarted => ?_,progress_init h hprogress⟩
    · obtain ⟨-,harmed⟩ | ⟨hbefore,hsame⟩ := ht hstarted
      · exact harmed
      · rw [hsame]; exact htimer hbefore
    · obtain ⟨-,harmed⟩ | ⟨hbefore,hsame⟩ := hh hstarted
      · exact harmed
      · rw [hsame]; exact hhr hbefore
  | fire =>
    obtain ⟨u,hu,rfl⟩ := Option.map_eq_some_iff.mp h
    exact ⟨fun hstarted => (Timer.fire_armed_iff hu).mpr (htimer hstarted),hhr,hprogress⟩
  | modTimer =>
    obtain ⟨u,hu,rfl⟩ := Option.map_eq_some_iff.mp h
    exact ⟨fun hstarted => (Timer.rearm_armed_iff hu).mpr (htimer hstarted),hhr,hprogress⟩
  | finish =>
    obtain ⟨u,hu,rfl⟩ := Option.map_eq_some_iff.mp h
    exact ⟨fun hstarted => (Timer.finish_armed_iff hu).mpr (htimer hstarted),hhr,hprogress⟩
  | hrFire =>
    obtain ⟨u,hu,rfl⟩ := Option.map_eq_some_iff.mp h
    exact ⟨htimer,fun hstarted => (Timer.fire_armed_iff hu).mpr (hhr hstarted),hprogress⟩
  | hrRestart =>
    obtain ⟨u,hu,rfl⟩ := Option.map_eq_some_iff.mp h
    exact ⟨htimer,fun hstarted => (Timer.restart_armed_iff hu).mpr (hhr hstarted),hprogress⟩
  | sysfs =>
    simp only [step, Option.ite_none_right_eq_some, Option.some.injEq] at h
    obtain ⟨-,rfl⟩ := h
    exact ⟨htimer,hhr,hprogress⟩

end Steps

section Loads
variable {env : Env} {acts : List Act} {s : State}

theorem inv_run (h : run (step env) start acts = some s) : Inv env s :=
  run_invariant (fun _ _ _ => inv_step) h (inv_start env)

/-- The return value tells whether every call succeeded. -/
theorem returned_iff (h : run (step env) start acts = some s) {ret : ℤ} (hret : s.pc = .returned ret) :
    ret = -1 ↔ env.succeeds = false := by
  have hprogress := (inv_run h).progress
  rw [Progress,hret] at hprogress
  obtain ⟨rfl,hok⟩ | ⟨rfl,hfails,-⟩ := hprogress
  · simp [hok]
  · simp [hfails]

/-- What a failed load leaves behind, and both its timers go on. -/
theorem left_behind (h : run (step env) start acts = some s) (hret : s.pc = .returned (-1)) :
    s.timer.Armed ∧ s.hrtimer.Armed ∧ s.held = env.leftBehind ∧ s.strays = env.strays := by
  obtain ⟨htimer,hhr,hprogress⟩ := inv_run h
  rw [hret] at htimer hhr
  rw [Progress,hret] at hprogress
  obtain ⟨hzero,-⟩ | ⟨-,-,hheld,hstrays⟩ := hprogress
  · contradiction
  · exact ⟨htimer rfl,hhr rfl,hheld,hstrays⟩

theorem succeeds_iff : env.succeeds = true ↔ ∀ c, env.ok c = true := by
  simp only [Env.succeeds, Env.sysfs, Bool.and_eq_true]
  constructor
  · rintro ⟨⟨⟨⟨hkobj,hfile⟩,halloc⟩,hclass⟩,hdevice⟩ c
    cases c <;> assumption
  · intro h
    exact ⟨⟨⟨⟨h _,h _⟩,h _⟩,h _⟩,h _⟩

/-- A load leaves nothing behind, whenever its timers expire, exactly when none of its calls fails:
the timers are started first, and no label stops them. -/
theorem nothing_left_iff (h : run (step env) start acts = some s) {ret : ℤ} (hret : s.pc = .returned ret) :
    LeavesNothing env s ↔ ∀ c, env.ok c = true := by
  rw [← succeeds_iff]
  constructor
  · intro hclean
    by_contra hfails
    have hfailed : s.pc = .returned (-1) := by
      rw [hret,(returned_iff h hret).mpr (Bool.eq_false_iff.mpr hfails)]
    obtain ⟨harmed,-⟩ := left_behind h hfailed
    exact harmed.not_dead (hclean hfailed).1.timer
  · intro hok hfailed
    have hfails := (returned_iff h hfailed).mp rfl
    rw [hok] at hfails
    contradiction

end Loads

/-- Every call succeeds, while both timers expire during the load. -/
theorem nothing_left_iff_loaded : ∃ acts s, run (step ⟨fun _ => true,240⟩) start acts = some s ∧
    LeavesNothing ⟨fun _ => true,240⟩ s := by
  obtain ⟨s,hs,hret⟩ := exists_of_run_any (step ⟨fun _ => true,240⟩) start
    [.init,.init,.fire,.init,.modTimer,.init,.hrFire,.init,.init,.finish,.init,.hrRestart,.init,.sysfs,.init]
    (fun s => s.pc = .returned 0) (by decide)
  simp only [decide_eq_true_eq] at hret
  exact ⟨_,s,hs,(nothing_left_iff hs hret).mpr fun _ => rfl⟩

/-- No class can be created. The load returns -1, and afterwards the timer expires and the
attribute is read. -/
theorem timer_fires_after_failed_load : ∃ acts s, run (step ⟨(· ≠ .classCreate),240⟩) start acts = some s ∧
    s.pc = .returned (-1) ∧ s.timer.handler = .entered ∧ s.held = [.kobject,.file .exampleSysfs] ∧
    ¬ LeavesNothing ⟨(· ≠ .classCreate),240⟩ s := by
  obtain ⟨s,hs,hp⟩ := exists_of_run_any (step ⟨(· ≠ .classCreate),240⟩) start
    (List.replicate 9 .init ++ [.fire,.sysfs])
    (fun s => s.pc = .returned (-1) ∧ s.timer.handler = .entered ∧ s.held = [.kobject,.file .exampleSysfs])
    (by decide)
  simp only [decide_eq_true_eq] at hp
  obtain ⟨hret,hentered,hheld⟩ := hp
  refine ⟨_,s,hs,hret,hentered,hheld,fun hclean => ?_⟩
  have hidle := (hclean hret).1.timer.2
  rw [hentered] at hidle
  contradiction

end ExampleKernel.Timers.SimpleTimer
