import ExampleKernel.Kernel.Ladder

/-! Loading and unloading the two GPIO drivers, while other drivers hold pins and regions: the calls of
`example_gpio_init` with the labels they jump to, and `example_gpio_exit`. -/
namespace ExampleKernel.Gpio.Load
open ExampleKernel.Foundation ExampleKernel.Kernel

inductive Resource
  | region (number : ℕ)
  | cdev | devClass | device
  | gpio (pin : ℕ)
  | irq | exported
  deriving DecidableEq, Repr

inductive KernelCall
  | allocChrdevRegion | cdevInit | cdevAdd | classCreate | deviceCreate
  | gpioIsValid (pin : ℕ) | gpioRequest (pin : ℕ) | gpioDirectionOutput (pin : ℕ) | gpioDirectionInput (pin : ℕ)
  | gpioToIrq | requestIrq | gpioExport
  deriving DecidableEq, Repr

open Resource KernelCall

def gpio21Out : ℕ := 21

/-- The source defines `GPIO_25_IN` as pin 24. -/
def gpio25In : ℕ := 24

/-- The variable `dev`: 0 until `alloc_chrdev_region` stores the number of a region. -/
def dev : List Resource → ℕ
  | region number::_ => number
  | _::held => dev held
  | [] => 0

section Labels
variable (held : List Resource)

def rUnreg : List Resource := [region (dev held)]
def rDel : List Resource := cdev::rUnreg held
def rClass : List Resource := devClass::rDel held
def rDevice : List Resource := device::rClass held
def rGpioOut : List Resource := gpio gpio21Out::rDevice held
def rGpioIn : List Resource := gpio gpio25In::rGpioOut held

/-- The label of gpio_driver. -/
def rGpio : List Resource := gpio gpio21Out::rDevice held

end Labels

/-- What both variants do first. -/
def createDevice (number : ℕ) : List (Rung KernelCall Resource) :=
  [⟨allocChrdevRegion,[region number],.undo rUnreg⟩,
    ⟨cdevInit,[],.never⟩,
    ⟨cdevAdd,[cdev],.undo rDel⟩,
    ⟨classCreate,[devClass],.undo rClass⟩,
    ⟨deviceCreate,[device],.undo rDevice⟩]

/-- `example_gpio_init` of gpio_irq. A `gpio_to_irq` that fails gives a number that `request_irq`
refuses. -/
def gpioIrqInit (number : ℕ) : List (Rung KernelCall Resource) :=
  createDevice number ++
    [⟨gpioIsValid gpio21Out,[],.undo rDevice⟩,
      ⟨gpioRequest gpio21Out,[gpio gpio21Out],.undo rGpioOut⟩,
      ⟨gpioDirectionOutput gpio21Out,[],.ignored⟩,
      ⟨gpioIsValid gpio25In,[],.undo rGpioIn⟩,
      ⟨gpioRequest gpio25In,[gpio gpio25In],.undo rGpioIn⟩,
      ⟨gpioDirectionInput gpio25In,[],.ignored⟩,
      ⟨gpioToIrq,[],.ignored⟩,
      ⟨requestIrq,[irq],.undo rGpioIn⟩]

/-- `example_gpio_init` of gpio_driver. -/
def gpioDriverInit (number : ℕ) : List (Rung KernelCall Resource) :=
  createDevice number ++
    [⟨gpioIsValid gpio21Out,[],.undo rDevice⟩,
      ⟨gpioRequest gpio21Out,[gpio gpio21Out],.undo rGpio⟩,
      ⟨gpioDirectionOutput gpio21Out,[],.ignored⟩,
      ⟨gpioExport,[exported],.ignored⟩]

def gpioIrqExit (held : List Resource) : Result × List Resource :=
  (.ok,[irq,gpio gpio25In,gpio gpio21Out,device,devClass,cdev,region (dev held)])

/-- `gpio_unexport` does nothing to a pin that is not exported. -/
def gpioDriverExit (held : List Resource) : Result × List Resource :=
  (.ok,[exported].filter (· ∈ held) ++ [gpio gpio21Out,device,devClass,cdev,region (dev held)])

/-- What other drivers hold under the same name: pins, the line of the interrupt, and regions, whose
numbers are not 0. -/
def shared : Resource → Bool
  | region number => number ≠ 0
  | gpio _ | irq => true
  | _ => false

inductive Variant
  | gpioIrq
  | gpioDriver
  deriving DecidableEq, Repr

/-- The number of the region is the choice of the kernel. -/
def driver : Variant → Driver ℕ KernelCall Resource
  | .gpioIrq => ⟨gpioIrqInit,gpioIrqExit,shared⟩
  | .gpioDriver => ⟨gpioDriverInit,gpioDriverExit,shared⟩

/-- Only a loaded module holds anything, and nothing has been released that was not held. -/
def ReleasesOwn (w : World Resource) : Prop := w.Settled (fun _ => True) ∧ w.stray = []

/-- Only a loaded module holds anything, and nothing has been released that somebody else held. -/
def LeavesOthers (w : World Resource) : Prop := w.Settled (fun _ => True) ∧ ∀ p ∈ w.stray, p.2 = false

/-- The calls whose failure undoes what was acquired before them, and the ones whose failure changes
nothing. -/
def Variant.undone : Variant → List KernelCall
  | .gpioIrq => [gpioIsValid gpio21Out,gpioDirectionOutput gpio21Out,gpioDirectionInput gpio25In,gpioToIrq,requestIrq]
  | .gpioDriver => [gpioIsValid gpio21Out,gpioDirectionOutput gpio21Out,gpioExport]

/-- No call fails but those that `undone` lists. -/
def Variant.Undoes (i : Variant) : LoadAct ℕ KernelCall Resource → Prop
  | .load number ok => ∀ c ∈ failing ok ((driver i).init number), c ∈ i.undone
  | _ => True

/-- A request that fails is not for a pin that somebody else holds; the same for the test of the
input pin. -/
def Variant.Unclaimed (i : Variant) (w : World Resource) : LoadAct ℕ KernelCall Resource → Prop
  | .load number ok =>
    (gpioRequest gpio21Out ∈ failing ok ((driver i).init number) → w.others (gpio gpio21Out) = false) ∧
    (gpioRequest gpio25In ∈ failing ok ((driver i).init number) ∨
      gpioIsValid gpio25In ∈ failing ok ((driver i).init number) → w.others (gpio gpio25In) = false)
  | _ => True

instance (i : Variant) : DecidablePred i.Undoes
  | .load number ok => inferInstanceAs (Decidable (∀ c ∈ failing ok ((driver i).init number), c ∈ i.undone))
  | .unload | .request _ | .free _ => inferInstanceAs (Decidable True)

instance (i : Variant) (w : World Resource) : DecidablePred (i.Unclaimed w)
  | .load _ _ => inferInstanceAs (Decidable (_ ∧ _))
  | .unload | .request _ | .free _ => inferInstanceAs (Decidable True)

section Attempts
variable (number : ℕ) (ok : KernelCall → Bool)
attribute [local simp] driver gpioIrqInit gpioDriverInit createDevice paths Attempt.Clean Attempt.strays
  Attempt.leaks Variant.undone rUnreg rDel rClass rDevice rGpioOut rGpioIn rGpio dev List.diff gpio21Out gpio25In

/-- Nothing stays behind, and nothing else is released unless a call fails that `undone` does not list. -/
theorem attempt_undone_iff (i : Variant) :
    (attempt ok ((driver i).init number) []).Clean (fun _ => True) ∧
      ((attempt ok ((driver i).init number) []).strays = [] ↔
        ∀ c ∈ failing ok ((driver i).init number), c ∈ i.undone) := by
  apply attempt_of_paths (Q := fun failed a => a.Clean (fun _ => True) ∧ (a.strays = [] ↔ ∀ c ∈ failed, c ∈ i.undone))
  cases i <;> simp

/-- Of what an attempt releases without holding it, somebody else can hold only the pins. -/
theorem attempt_unclaimed_iff (i : Variant) {others : Resource → Bool}
    (hshared : ∀ x, others x = true → shared x = true) :
    (∀ x ∈ (attempt ok ((driver i).init number) []).strays, others x = false) ↔
      (gpioRequest gpio21Out ∈ failing ok ((driver i).init number) → others (gpio gpio21Out) = false) ∧
      (gpioRequest gpio25In ∈ failing ok ((driver i).init number) ∨
        gpioIsValid gpio25In ∈ failing ok ((driver i).init number) → others (gpio gpio25In) = false) := by
  have hown : ∀ x, shared x = false → others x = false := fun x hx =>
    Bool.eq_false_iff.mpr fun ht => Bool.false_ne_true (hx.symm.trans (hshared x ht))
  have hzero := hown (region 0) rfl
  have hcdev := hown cdev rfl
  have hclass := hown devClass rfl
  have hdevice := hown device rfl
  apply attempt_of_paths (Q := fun failed a => (∀ x ∈ a.strays, others x = false) ↔
    (gpioRequest gpio21Out ∈ failed → others (gpio gpio21Out) = false) ∧
    (gpioRequest gpio25In ∈ failed ∨ gpioIsValid gpio25In ∈ failed → others (gpio gpio25In) = false))
  cases i <;> simp [hzero, hcdev, hclass, hdevice]

/-- `example_gpio_exit` releases exactly what a successful `example_gpio_init` has acquired. -/
theorem exit_exact (i : Variant) (hok : (attempt ok ((driver i).init number) []).result = .ok) :
    (Attempt.mk ((driver i).exit (attempt ok ((driver i).init number) []).acquired).1
      (attempt ok ((driver i).init number) []).acquired
      ((driver i).exit (attempt ok ((driver i).init number) []).acquired).2).Exact := by
  refine attempt_of_paths (Q := fun _ a => a.result = .ok →
    (Attempt.mk ((driver i).exit a.acquired).1 a.acquired ((driver i).exit a.acquired).2).Exact) ?_ ok hok
  cases i <;> simp [Attempt.Exact, gpioIrqExit, gpioDriverExit]

end Attempts

/-- Over any number of loads and unloads, with other drivers that request and free pins and regions in
between: the drivers leave nothing behind and release only what they hold, each thing once, exactly
as long as no call fails that `undone` does not list; and they release nothing of somebody else's
exactly as long as no request fails for a pin that is taken. -/
theorem releases_own_iff (i : Variant) {acts : List (LoadAct ℕ KernelCall Resource)} {w : World Resource}
    (h : run (driver i).step World.start acts = some w) :
    (Always (driver i).step ReleasesOwn World.start acts ↔
      Meets (driver i).step (fun _ => i.Undoes) World.start acts) ∧
    (Always (driver i).step LeavesOthers World.start acts ↔
      Meets (driver i).step i.Unclaimed World.start acts) := by
  have hstart : (driver i).Shared World.start := fun x hx => absurd hx Bool.false_ne_true
  have hshared : (driver i).shared = shared := by cases i <;> rfl
  constructor
  · have hstray : ReleasesOwn = fun w => w.Settled (fun _ => True) ∧ ∀ p ∈ w.stray, (fun _ => true) p = false := by
      funext w
      simp [ReleasesOwn, List.eq_nil_iff_forall_not_mem]
    rw [hstray,always_settled_iff (fun number ok hok _ => exit_exact number ok i hok) h]
    refine meets_congr (I := fun _ => True) (fun _ _ _ _ _ => trivial) (fun w a _ => ?_) trivial acts
    cases a with
    | load number ok =>
      obtain ⟨hclean,hundone⟩ := attempt_undone_iff number ok i
      simp only [Driver.Loads, Variant.Undoes, ← hundone]
      simp [hclean, List.eq_nil_iff_forall_not_mem]
    | _ => exact Iff.rfl
  · have hothers : LeavesOthers = fun w => w.Settled (fun _ => True) ∧ ∀ p ∈ w.stray, Prod.snd p = false := rfl
    rw [hothers,always_settled_iff (fun number ok hok _ => exit_exact number ok i hok) h]
    refine meets_congr (I := (driver i).Shared) (fun _ _ _ => shared_step) (fun w a hw => ?_) hstart acts
    cases a with
    | load number ok =>
      rw [Driver.Shared,hshared] at hw
      simp only [Driver.Loads, Variant.Unclaimed, ← attempt_unclaimed_iff number ok i hw]
      exact and_iff_right (attempt_undone_iff number ok i).1
    | _ => exact Iff.rfl

/-- A region of somebody else's, an attempt without the interrupt, then a load and an unload. -/
theorem releases_own_iff_reloaded : ∃ acts w, run (driver .gpioIrq).step World.start acts = some w ∧
    w.others (region 240) = true ∧ Always (driver .gpioIrq).step ReleasesOwn World.start acts ∧
    Always (driver .gpioIrq).step LeavesOthers World.start acts := by
  let acts : List (LoadAct ℕ KernelCall Resource) :=
    [.request (region 240),.load 241 fun c => c ≠ requestIrq,.load 242 fun _ => true,.unload]
  obtain ⟨w,hw,hp⟩ := exists_of_run_any (driver .gpioIrq).step World.start acts (·.others (region 240)) (by decide)
  obtain ⟨hown,hothers⟩ := releases_own_iff .gpioIrq hw
  refine ⟨acts,w,hw,hp,hown.mpr ?_,hothers.mpr ?_⟩
  · exact meets_of_check (fun _ a => decide (Variant.Undoes .gpioIrq a)) (fun _ _ h => of_decide_eq_true h)
      (by decide)
  · exact meets_of_check (fun w a => decide (Variant.Unclaimed .gpioIrq w a)) (fun _ _ h => of_decide_eq_true h)
      (by decide)

/-- Another driver holds pin 21: the request fails, and the pin is freed. -/
theorem busy_pin_freed : ¬ ∀ (i : Variant) acts w, run (driver i).step World.start acts = some w →
    Always (driver i).step ReleasesOwn World.start acts ∧ Always (driver i).step LeavesOthers World.start acts := by
  intro h
  obtain ⟨w,hw,hp⟩ := exists_of_run_any (driver .gpioDriver).step World.start
    [.request (gpio 21),.load 240 fun c => c ≠ gpioRequest 21]
    (fun w => w.stray = [(gpio 21,true)] ∧ w.others (gpio 21) = false) (by decide)
  simp only [decide_eq_true_eq] at hp
  obtain ⟨u,hu,hload⟩ := run_cons_eq_some.mp hw
  obtain ⟨v,hv,hdone⟩ := run_cons_eq_some.mp hload
  cases hdone
  have hleft := ((h .gpioDriver _ w hw).2.2 u hu).2 w hv
  have htaken := hleft.2 (gpio 21,true) (by rw [hp.1]; exact List.mem_singleton_self _)
  cases htaken

end ExampleKernel.Gpio.Load
