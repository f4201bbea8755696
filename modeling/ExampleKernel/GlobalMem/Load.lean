import ExampleKernel.Kernel.Ladder

/-! Loading and unloading globalmem: the calls of `globalmem_init` with what they acquire and where they
jump when they fail, and `globalmem_exit`. -/
namespace ExampleKernel.GlobalMem.Load
open ExampleKernel.Foundation ExampleKernel.Kernel

inductive Kthread
  | waitThread | waitThread2 | globalmemThread | globalmemThread2
  deriving DecidableEq, Repr

/-- What the module acquires. A `kthread` is held from its creation to its return or to the request of
`globalmem_exit` that makes it return. -/
inductive Resource
  | devp | region | devClass | device | procParent | procEntry | kobj | sysfsFile
  | kthread (t : Kthread)
  | irq | tasklet | timer | hrTimer | cdev
  deriving DecidableEq, Repr

open Kthread Resource

/-- The calls of `globalmem_init` into the kernel. -/
inductive KernelCall
  | kzalloc | allocChrdevRegion | classCreate | deviceCreate | procMkdir | procCreate
  | kobjectCreateAndAdd | sysfsCreateFile
  | initWaitqueueHead | initCompletion
  | kthreadCreate (t : Kthread) | wakeUpProcess (t : Kthread) | kthreadRun (t : Kthread)
  | requestIrq | initWork
  | kmalloc | taskletInit
  | mutexInit | spinLockInit | rwlockInit
  | timerSetup | modTimer | hrtimerInit | hrtimerStart
  | cdevInit | cdevAdd | devMutexInit
  deriving DecidableEq, Repr

open KernelCall

/-- The last reference to a kobject takes its directory away, with the files in it; nothing happens
for `NULL`. -/
def kobjectPut (held : List Resource) : List Resource := [sysfsFile,kobj].filter (· ∈ held)

/-- `proc_remove` takes a directory with the entries in it. -/
def procRemove (held : List Resource) : List Resource := [procEntry,procParent].filter (· ∈ held)

def failMalloc (_ : List Resource) : List Resource := [region]

def rClass (_ : List Resource) : List Resource := [region]

def rDevice (held : List Resource) : List Resource := devClass::rClass held

/-- `sysfs_remove_file` is called for `kernel_kobj`, which has no file of the module. -/
def rSysfs (held : List Resource) : List Resource := kobjectPut held ++ rDevice held

def irqLabel (held : List Resource) : List Resource := irq::rSysfs held

/-- `kobj_ref` is not tested: `sysfs_create_file` refuses `NULL`. `kthread_create` and `kthread_run` fail
with an error pointer, which passes for a thread; `wake_up_process` follows it. -/
def globalmemInit : List (Rung KernelCall Resource) :=
  [⟨kzalloc,[devp],.undo failMalloc⟩,
    ⟨allocChrdevRegion,[region],.undo fun _ => []⟩,
    ⟨classCreate,[devClass],.undo rClass⟩,
    ⟨deviceCreate,[device],.undo rDevice⟩,
    ⟨procMkdir,[procParent],.undo rDevice⟩,
    ⟨procCreate,[procEntry],.ignored⟩,
    ⟨kobjectCreateAndAdd,[kobj],.undo rSysfs⟩,
    ⟨sysfsCreateFile,[sysfsFile],.undo rSysfs⟩,
    ⟨initWaitqueueHead,[],.never⟩,
    ⟨kthreadCreate waitThread,[kthread waitThread],.oops⟩,
    ⟨wakeUpProcess waitThread,[],.never⟩,
    ⟨initCompletion,[],.never⟩,
    ⟨kthreadCreate waitThread2,[kthread waitThread2],.oops⟩,
    ⟨wakeUpProcess waitThread2,[],.never⟩,
    ⟨requestIrq,[irq],.undo irqLabel⟩,
    ⟨initWork,[],.never⟩,
    ⟨kthreadCreate globalmemThread,[kthread globalmemThread],.oops⟩,
    ⟨wakeUpProcess globalmemThread,[],.never⟩,
    ⟨kthreadRun globalmemThread2,[kthread globalmemThread2],.ignored⟩,
    ⟨kmalloc,[tasklet],.undo irqLabel⟩,
    ⟨taskletInit,[],.never⟩,
    ⟨mutexInit,[],.never⟩,
    ⟨spinLockInit,[],.never⟩,
    ⟨rwlockInit,[],.never⟩,
    ⟨timerSetup,[],.never⟩,
    ⟨modTimer,[timer],.never⟩,
    ⟨hrtimerInit,[],.never⟩,
    ⟨hrtimerStart,[hrTimer],.never⟩,
    ⟨cdevInit,[],.never⟩,
    ⟨cdevAdd,[cdev],.ignored⟩,
    ⟨devMutexInit,[],.never⟩]

/-- `kthread_stop` follows the error pointer that a failed `kthread_run` has left. The two waiting
threads are asked to return. -/
def globalmemExit (held : List Resource) : Result × List Resource :=
  let stopped := [hrTimer,timer,tasklet,kthread globalmemThread]
  if kthread globalmemThread2 ∈ held then
    (.ok,stopped ++ [kthread globalmemThread2,irq] ++ kobjectPut held ++
      [kthread waitThread,kthread waitThread2] ++ procRemove held ++ [device,devClass,cdev,devp,region])
  else (.oops,stopped)

/-- Nothing of the module has a name that somebody else's could have: `dev_no` is 0, the number of no
region, until `alloc_chrdev_region` sets it, and a handler is freed by its address. -/
def globalmem : Driver Unit KernelCall Resource where
  init _ := globalmemInit
  exit := globalmemExit
  shared _ := false

/-- What a loaded module holds, in the order of `globalmem_init`. -/
def everything : List Resource :=
  [devp,region,devClass,device,procParent,procEntry,kobj,sysfsFile,kthread waitThread,kthread waitThread2,
    irq,kthread globalmemThread,kthread globalmemThread2,tasklet,timer,hrTimer,cdev]

/-- All or nothing is held, and nothing has been released that was not held. -/
def AllOrNothing (w : World Resource) : Prop := w.Settled (· = everything) ∧ w.stray = []

/-- Every call of an attempt to load that can fail succeeds. -/
def EveryCallSucceeds : LoadAct Unit KernelCall Resource → Prop
  | .load _ ok => ∀ r ∈ globalmemInit, r.succeeds ok = true
  | _ => True

instance : DecidablePred EveryCallSucceeds
  | .load _ ok => inferInstanceAs (Decidable (∀ r ∈ globalmemInit, r.succeeds ok = true))
  | .unload | .request _ | .free _ => inferInstanceAs (Decidable True)

theorem every_call_succeeds_iff (ok : KernelCall → Bool) :
    EveryCallSucceeds (.load () ok) ↔ failing ok globalmemInit = [] := failing_eq_nil.symm

/-- An attempt is clean and makes no stray release only if none of its calls fails. -/
theorem attempt_clean_iff (ok : KernelCall → Bool) :
    (attempt ok globalmemInit []).Clean (· = everything) ∧ (attempt ok globalmemInit []).strays = [] ↔
      failing ok globalmemInit = [] :=
  attempt_of_paths (Q := fun failed a => a.Clean (· = everything) ∧ a.strays = [] ↔ failed = []) (by decide) ok

/-- Of the failing attempts only that without device memory leaves nothing behind. -/
theorem attempt_settled_iff (ok : KernelCall → Bool) :
    (attempt ok globalmemInit []).Clean (· = everything) ↔
      failing ok globalmemInit = [] ∨ failing ok globalmemInit = [kzalloc] :=
  attempt_of_paths (Q := fun failed a => a.Clean (· = everything) ↔ failed = [] ∨ failed = [kzalloc])
    (by decide) ok

theorem failing_kzalloc_iff (ok : KernelCall → Bool) :
    failing ok globalmemInit = [kzalloc] ↔ ok kzalloc = false := by
  constructor
  · intro h
    exact not_ok_of_mem_failing (h ▸ List.mem_singleton_self _)
  · intro h
    simp [failing, globalmemInit, Rung.succeeds, h]

/-- The exit of a complete module releases each resource once. -/
theorem exit_everything :
    (Attempt.mk (globalmemExit everything).1 everything (globalmemExit everything).2).Exact := by decide

/-- Over any number of attempts to load and unload, globalmem is loaded completely or not at all, and
releases only what it holds, exactly as long as no call of an attempt fails. What it holds is also right
after an attempt that gets no device memory; its stray release names no region that anybody has. -/
theorem loads_all_or_nothing {acts : List (LoadAct Unit KernelCall Resource)} {w : World Resource}
    (h : run globalmem.step World.start acts = some w) :
    (Always globalmem.step AllOrNothing World.start acts ↔
      Meets globalmem.step (fun _ => EveryCallSucceeds) World.start acts) ∧
    (Always globalmem.step (World.Settled (· = everything)) World.start acts ↔
      Meets globalmem.step (fun _ a => EveryCallSucceeds a ∨ ∃ ok, a = .load () ok ∧ ok kzalloc = false)
        World.start acts) := by
  have hexit : ∀ v ok, (attempt ok (globalmem.init v) []).result = .ok →
      (attempt ok (globalmem.init v) []).acquired = everything →
      (Attempt.mk (globalmem.exit (attempt ok (globalmem.init v) []).acquired).1
        (attempt ok (globalmem.init v) []).acquired
        (globalmem.exit (attempt ok (globalmem.init v) []).acquired).2).Exact := by
    intro v ok _ hall
    rw [hall]
    exact exit_everything
  constructor
  · have hstray : AllOrNothing = fun w => w.Settled (· = everything) ∧ ∀ p ∈ w.stray, (fun _ => true) p = false := by
      funext w
      simp [AllOrNothing, List.eq_nil_iff_forall_not_mem]
    rw [hstray,always_settled_iff hexit h]
    refine meets_congr (I := fun _ => True) (fun _ _ _ _ _ => trivial) (fun w a _ => ?_) trivial acts
    cases a with
    | load v ok =>
      rw [every_call_succeeds_iff,← attempt_clean_iff]
      simp [Driver.Loads, globalmem, List.eq_nil_iff_forall_not_mem]
    | _ => exact Iff.rfl
  · have hsettled : World.Settled (· = everything) =
        fun w : World Resource => w.Settled (· = everything) ∧ ∀ p ∈ w.stray, (fun _ => false) p = false := by
      funext w
      simp
    rw [hsettled,always_settled_iff hexit h]
    refine meets_congr (I := fun _ => True) (fun _ _ _ _ _ => trivial) (fun w a _ => ?_) trivial acts
    cases a with
    | load v ok =>
      have hclean := attempt_settled_iff ok
      rw [failing_kzalloc_iff,← every_call_succeeds_iff] at hclean
      simp [Driver.Loads, globalmem, hclean]
    | _ => simp [Driver.Loads, EveryCallSucceeds]

/-- Loaded, unloaded and loaded again. -/
theorem loads_all_or_nothing_reloaded : ∃ acts w, run globalmem.step World.start acts = some w ∧
    w.loaded = some everything ∧ Always globalmem.step AllOrNothing World.start acts := by
  let acts : List (LoadAct Unit KernelCall Resource) := [.load () fun _ => true,.unload,.load () fun _ => true]
  obtain ⟨w,hw,hp⟩ := exists_of_run_any globalmem.step World.start acts (·.loaded = some everything) (by decide)
  simp only [decide_eq_true_eq] at hp
  have hC : Meets globalmem.step (fun _ => EveryCallSucceeds) World.start acts :=
    meets_of_check (fun _ a => decide (EveryCallSucceeds a)) (fun _ _ h => of_decide_eq_true h) (by decide)
  exact ⟨acts,w,hw,hp,(loads_all_or_nothing hw).1.mpr hC⟩

/-- No memory for the tasklet: the four threads stay, and the device memory, the device and the entries
under `/proc`. -/
theorem threads_outlive_failed_load : ¬ ∀ acts w, run globalmem.step World.start acts = some w →
    Always globalmem.step AllOrNothing World.start acts := by
  intro h
  obtain ⟨w,hw,hp⟩ := exists_of_run_any globalmem.step World.start [.load () fun c => c ≠ kmalloc]
    (fun w => w.loaded = none ∧ w.held = [devp,device,procParent,procEntry,kthread waitThread,
      kthread waitThread2,kthread globalmemThread,kthread globalmemThread2]) (by decide)
  simp only [decide_eq_true_eq] at hp
  obtain ⟨-,hnext⟩ := h _ w hw
  obtain ⟨t,ht,hdone⟩ := run_cons_eq_some.mp hw
  cases hdone
  have hheld := (hnext _ ht).1.held
  rw [hp.1,hp.2] at hheld
  cases hheld

end ExampleKernel.GlobalMem.Load
