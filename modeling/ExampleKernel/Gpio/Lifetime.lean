import ExampleKernel.Kernel.Stepwise
import ExampleKernel.Gpio.Led
import ExampleKernel.Gpio.Load

/-! The GPIO drivers from load to unload: the calls of init and exit one by one, in between the files that
processes open, read and write, the interrupts, the writes to the exported pin, and other drivers that use
the pin while it is free. -/
namespace ExampleKernel.Gpio.Lifetime
open ExampleKernel.Foundation ExampleKernel.Kernel ExampleKernel.Gpio.Load

/-- The memory of the caller and the return value. -/
structure ReadResult where
  user : ℕ → UInt8
  ret : ℤ

/-- `len` is set to 1 whatever the caller has asked for, and 0 is returned. -/
def exampleGpioRead (gpio21 : Bool) (user : ℕ → UInt8) (buf : ℕ) (copy : UserCopy) : ReadResult :=
  let gpioState : UInt8 := if gpio21 then 1 else 0
  match copy with
  | .fault _ _ => ⟨user,0⟩
  | .done => ⟨blit user buf 1 fun _ => gpioState,0⟩

/-- `output` is the direction of pin 21, which stays when the pin is freed. `files` counts the open files of
the device. -/
structure State where
  course : Course ℕ KernelCall Resource
  led : Led.State
  output : Bool
  files : ℕ

/-- `value` is a write to `/sys/class/gpio/gpio21/value`. With `outside` something else gives the pin a level,
and a direction when the pin is free. -/
inductive Act
  | move (m : Move ℕ KernelCall)
  | exampleGpioOpen
  | exampleGpioRelease
  | exampleGpioRead (user : ℕ → UInt8) (buf : ℕ) (copy : UserCopy)
  | led (a : Led.Act)
  | value (v : Bool)
  | outside (level output : Bool)

def State.holds (s : State) (x : Resource) : Prop := x ∈ s.course.held

instance (s : State) (x : Resource) : Decidable (s.holds x) := inferInstanceAs (Decidable (_ ∈ _))

/-- A module that files are open of is not unloaded, and `free_irq` waits until the handler has returned. -/
def State.admits (s : State) : Move ℕ KernelCall → Bool
  | .unload => s.files = 0
  | .release => s.led.handler = .idle || match s.course.stage with
    | .undo (x::_) | .exit (x::_) => x ≠ .irq
    | _ => true
  | _ => true

/-- A load gives the variables of the module their initial values. -/
def initialised (s : Led.State) : Led.State :=
  {s with oldJiffie := 0, ledToggle := 0, handler := .idle, accepted := 0, lastWrite := none}

/-- What a move does besides: the variables are initialised, or the call is `gpio_direction_output`. A failing
init frees the code of the module even if files of it are open. -/
def State.moved (s : State) (c : Course ℕ KernelCall Resource) : Move ℕ KernelCall → State
  | .load _ _ => {s with course := c, led := initialised s.led}
  | .call => match s.course.stage with
    | .init (r::_) =>
      if r.call = .gpioDirectionOutput gpio21Out ∧ s.course.ok r.call then
        {s with course := c, led := {s.led with gpio21 := false}, output := true}
      else {s with course := c}
    | _ => {s with course := c}
  | .ret => if c.stage.isOut ∧ s.files ≠ 0 then {s with course := {c with stage := .oops}} else {s with course := c}
  | _ => {s with course := c}

/-- `gpio_set_value` has no effect on the level of a pin that is not an output. -/
def State.drive (s : State) (led : Led.State) : State :=
  {s with led := if s.output then led else {led with gpio21 := s.led.gpio21}}

def step (w : ℕ) (i : Variant) (s : State) : Act → Option State
  | .move m => if s.admits m then ((driver i).advance s.course m).map fun c => s.moved c m else none
  -- the device answers from `cdev_add` on, and until the module is being unloaded
  | .exampleGpioOpen =>
    if s.holds .cdev ∧ ¬ s.course.stage.isExit then some {s with files := s.files+1} else none
  | .exampleGpioRelease => if s.files = 0 then none else some {s with files := s.files-1}
  | .exampleGpioRead _ _ _ => if s.files = 0 then none else some s
  | .led .irq => if s.holds .irq then (Led.step w s.led .irq).map s.drive else none
  | .led (.write stack recBuf buf len copy) =>
    if s.files = 0 then none else (Led.step w s.led (.write stack recBuf buf len copy)).map s.drive
  | .led a => (Led.step w s.led a).map s.drive
  | .value v =>
    if s.holds .exported then some (s.drive {s.led with gpio21 := v, lastWrite := some v}) else none
  | .outside level output =>
    if s.holds (.gpio gpio21Out) then
      if s.output then none else some {s with led := {s.led with gpio21 := level}}
    else some {s with led := {s.led with gpio21 := level}, output := output}

/-- No module is loaded; the pin is as it happens to be. -/
def start (level output : Bool) : State where
  course := ⟨.out,[],0,fun _ => false⟩
  led := {Led.loaded with gpio21 := level}
  output := output
  files := 0

section Attempts
variable (number : ℕ) (ok : KernelCall → Bool) (i : Variant)
attribute [local simp] driver gpioIrqInit gpioDriverInit createDevice paths dev gpio21Out gpio25In

/-- The interrupt and the export come last. -/
def Late (x : Resource) : Prop := x = .irq ∨ x = .exported

theorem late_last {x : Resource} (hx : Late x) : ∀ r ∈ ((driver i).init number).dropLast, x ∉ r.acquires := by
  obtain rfl | rfl := hx <;> cases i <;> simp

theorem late_pins {x : Resource} (hx : Late x) :
    ((attempt ok ((driver i).init number) []).result = .error → x ∉ (attempt ok ((driver i).init number) []).acquired) ∧
    (x ∈ (attempt ok ((driver i).init number) []).acquired →
      .gpio gpio21Out ∈ (attempt ok ((driver i).init number) []).acquired ∧
      (x = .irq → .gpio gpio25In ∈ (attempt ok ((driver i).init number) []).acquired)) := by
  apply attempt_of_paths (Q := fun _ a => (a.result = .error → x ∉ a.acquired) ∧
    (x ∈ a.acquired → .gpio gpio21Out ∈ a.acquired ∧ (x = .irq → .gpio gpio25In ∈ a.acquired)))
  obtain rfl | rfl := hx <;> cases i <;> simp

theorem acquired_nodup : (attempt ok ((driver i).init number) []).acquired.Nodup := by
  apply attempt_of_paths (Q := fun _ a => a.acquired.Nodup)
  cases i <;> simp

theorem late_first {x : Resource} (hx : Late x) (h : x ∈ (attempt ok ((driver i).init number) []).acquired) :
    ∃ rest, ((driver i).exit (attempt ok ((driver i).init number) []).acquired).2 = x::rest := by
  refine attempt_of_paths (Q := fun _ a => x ∈ a.acquired → ∃ rest, ((driver i).exit a.acquired).2 = x::rest) ?_ ok h
  obtain rfl | rfl := hx <;> cases i <;> simp [gpioIrqExit, gpioDriverExit]

theorem loaded_pin (hok : (attempt ok ((driver i).init number) []).result = .ok) :
    .gpio gpio21Out ∈ (attempt ok ((driver i).init number) []).acquired := by
  refine attempt_of_paths (Q := fun _ a => a.result = .ok → .gpio gpio21Out ∈ a.acquired) ?_ ok hok
  cases i <;> simp

end Attempts

/-- The direction of pin 21 has been set, or was to be set. -/
def Configured (c : Course ℕ KernelCall Resource) : Prop :=
  c.stage = .loaded ∨ ∃ rest, c.stage = .init rest ∧ .gpioDirectionOutput gpio21Out ∉ rest.map Rung.call

section Course
variable {i : Variant} {c c' : Course ℕ KernelCall Resource}

theorem course_step {m : Move ℕ KernelCall} (h : (driver i).advance c m = some c') (hc : (driver i).Tracks c) :
    (driver i).Tracks c' :=
  tracks_step (fun number ok => (attempt_undone_iff number ok i).1) (fun number ok => exit_exact number ok i) h hc

/-- The interrupt and the export are held only together with what their users need. -/
theorem pins_of_late {x : Resource} (hx : Late x) (hc : (driver i).Tracks c) (h : x ∈ c.held) :
    .gpio gpio21Out ∈ c.held ∧ (x = .irq → .gpio gpio25In ∈ c.held) := by
  obtain ⟨-,hheld⟩ := held_of_last (late_last c.choice i hx) (late_pins c.choice c.ok i hx).1
    (acquired_nodup c.choice c.ok i) (late_first c.choice c.ok i hx) hc h
  have hpins := (late_pins c.choice c.ok i hx).2
  rw [Driver.whole] at hheld
  rw [hheld] at hpins
  exact hpins h

theorem not_late_of_ahead {x : Resource} (hx : Late x) {r : Rung KernelCall Resource}
    {rest : List (Rung KernelCall Resource)} (hc : (driver i).Tracks c) (hstage : c.stage = .init (r::rest)) :
    x ∉ c.held :=
  not_held_of_ahead (late_last c.choice i hx) hc hstage

/-- The direction of pin 21 is set after the request for it. -/
theorem direction_after_request {number : ℕ} {rest : List (Rung KernelCall Resource)}
    (h : rest <:+ (driver i).init number) (hrequest : .gpioRequest gpio21Out ∈ rest.map Rung.call) :
    .gpioDirectionOutput gpio21Out ∈ rest.map Rung.call := by
  have hcalls : ((driver i).init number).map Rung.call = ((driver i).init 0).map Rung.call := by cases i <;> rfl
  have hall : ∀ calls ∈ (((driver i).init 0).map Rung.call).tails, .gpioRequest gpio21Out ∈ calls →
      .gpioDirectionOutput gpio21Out ∈ calls := by
    cases i <;> decide
  refine hall _ ((List.mem_tails _ _).mpr ?_) hrequest
  rw [← hcalls]
  exact h.map _

theorem request_of_init (i : Variant) (number : ℕ) : ∃ r ∈ (driver i).init number,
    r.call = .gpioRequest gpio21Out ∧ .gpio gpio21Out ∈ r.acquires ∧ ∃ release, r.failure = .undo release := by
  cases i with
  | gpioIrq => exact ⟨⟨.gpioRequest gpio21Out,[.gpio gpio21Out],.undo rGpioOut⟩,by simp [driver, gpioIrqInit],rfl,
      List.mem_singleton_self _,_,rfl⟩
  | gpioDriver => exact ⟨⟨.gpioRequest gpio21Out,[.gpio gpio21Out],.undo rGpio⟩,by simp [driver, gpioDriverInit],rfl,
      List.mem_singleton_self _,_,rfl⟩

/-- From the call that sets its direction until the module is unloaded, pin 21 is held. -/
theorem pin_of_configured (hc : (driver i).Tracks c) (h : Configured c) : .gpio gpio21Out ∈ c.held := by
  obtain hstage | ⟨rest,hstage,hbehind⟩ := h
  · simp only [Driver.Tracks, hstage] at hc
    rw [← hc.2]
    exact loaded_pin c.choice c.ok i hc.1
  · obtain ⟨r,hr,hcall,hacquires,release,hf⟩ := request_of_init i c.choice
    have hsuffix : rest <:+ (driver i).init c.choice := by
      simp only [Driver.Tracks, hstage] at hc
      obtain ⟨made,hsplit,-⟩ := hc
      exact ⟨made,hsplit.symm⟩
    obtain hahead | hheld := ahead_or_held hc hstage hr hf hacquires
    · exact absurd (direction_after_request hsuffix (hcall ▸ List.mem_map_of_mem hahead)) hbehind
    · exact hheld

end Course

/-- The course of the calls; a failing init with open files ends in freed code. A handler that runs has its
interrupt. -/
structure Inv (i : Variant) (s : State) : Prop where
  course : s.course.stage = .oops ∧ s.course.held = [] ∨ (driver i).Tracks s.course
  handler : s.led.handler ≠ .idle → s.holds .irq

section Steps
variable {w : ℕ} {i : Variant} {s t : State} {c : Course ℕ KernelCall Resource} {m : Move ℕ KernelCall}

@[simp] theorem drive_course (s : State) (led : Led.State) : (s.drive led).course = s.course := rfl

@[simp] theorem drive_files (s : State) (led : Led.State) : (s.drive led).files = s.files := rfl

@[simp] theorem drive_handler (s : State) (led : Led.State) : (s.drive led).led.handler = led.handler := by
  unfold State.drive
  split_ifs <;> rfl

/-- What a move does besides has no part in the course but where it frees code that is in use. -/
theorem moved_cases (s : State) (c : Course ℕ KernelCall Resource) (m : Move ℕ KernelCall) :
    (s.moved c m).files = s.files ∧
    ((s.moved c m).led.handler = s.led.handler ∨ (s.moved c m).led.handler = .idle) ∧
    ((s.moved c m).course = c ∨
      m = .ret ∧ c.stage = .out ∧ s.files ≠ 0 ∧ (s.moved c m).course = {c with stage := .oops}) := by
  cases m with
  | load v ok => exact ⟨rfl,.inr rfl,.inl rfl⟩
  | unload | release => exact ⟨rfl,.inl rfl,.inl rfl⟩
  | call =>
    simp only [State.moved]
    split
    · split_ifs
      · exact ⟨rfl,.inl rfl,.inl rfl⟩
      · exact ⟨rfl,.inl rfl,.inl rfl⟩
    · exact ⟨rfl,.inl rfl,.inl rfl⟩
  | ret =>
    unfold State.moved
    split_ifs with hout
    · exact ⟨rfl,.inl rfl,.inr ⟨rfl,Stage.isOut_iff.mp hout.1,hout.2,rfl⟩⟩
    · exact ⟨rfl,.inl rfl,.inl rfl⟩

/-- `free_irq` waits for the handler. -/
theorem admits_release {x : Resource} {rest : List Resource} (h : s.admits .release = true)
    (hstage : s.course.stage = .undo (x::rest) ∨ s.course.stage = .exit (x::rest)) (hbusy : s.led.handler ≠ .idle) :
    x ≠ .irq := by
  obtain hstage | hstage := hstage <;> simpa [State.admits, hstage, hbusy] using h

/-- While its handler runs, the interrupt is not given back. -/
theorem irq_stays (h : (driver i).advance s.course m = some c) (hadmits : s.admits m = true)
    (hbusy : s.led.handler ≠ .idle) (hirq : s.holds .irq) : .irq ∈ c.held := by
  obtain ⟨v,ok,rfl,-,rfl⟩ | ⟨r,rest,rfl,-,rfl⟩ | ⟨rfl,-,rfl⟩ | ⟨x,rest,rfl,hstage,rfl⟩ | ⟨x,rest,rfl,hstage,rfl⟩ |
    ⟨rfl,-,rfl⟩ | ⟨rfl,-,rfl⟩ := advance_cases h
  · exact hirq
  · exact held_subset_make _ _ _ hirq
  · exact hirq
  · exact (List.mem_erase_of_ne (admits_release hadmits (.inl hstage) hbusy).symm).mpr hirq
  · exact (List.mem_erase_of_ne (admits_release hadmits (.inr hstage) hbusy).symm).mpr hirq
  · exact hirq
  · exact hirq

/-- The handler is entered by an interrupt only. -/
theorem handler_entered {l l' : Led.State} {b : Led.Act} (h : Led.step w l b = some l') (hbusy : l'.handler ≠ .idle) :
    b = .irq ∨ l.handler ≠ .idle := by
  cases b with
  | irq => exact .inl rfl
  | tick n => cases h; exact .inr hbusy
  | handler =>
    refine .inr fun hidle => ?_
    simp only [Led.step, Led.handlerStep, hidle] at h
    cases h
  | write stack recBuf buf len copy =>
    simp only [Led.step] at h
    split at h <;> cases h <;> exact .inr hbusy

/-- Everything but the calls of init and exit leaves the course as it is. -/
theorem inv_of_course (hs : Inv i s) (hcourse : t.course = s.course)
    (hhandler : t.led.handler ≠ .idle → s.led.handler ≠ .idle ∨ s.holds .irq) : Inv i t := by
  refine ⟨hcourse ▸ hs.course,fun hbusy => ?_⟩
  rw [State.holds,hcourse]
  exact (hhandler hbusy).elim hs.handler id

theorem inv_led {b : Led.Act} {led : Led.State} (hs : Inv i s) (h : Led.step w s.led b = some led)
    (hirq : b = .irq → s.holds .irq) : Inv i (s.drive led) := by
  refine inv_of_course hs (drive_course _ _) fun hbusy => ?_
  rw [drive_handler] at hbusy
  exact (handler_entered h hbusy).elim (fun hb => .inr (hirq hb)) .inl

theorem inv_move (hs : Inv i s) (h : (driver i).advance s.course m = some c) (hadmits : s.admits m = true) :
    Inv i (s.moved c m) := by
  have htracks : (driver i).Tracks s.course := by
    obtain ⟨hoops,-⟩ | htracks := hs.course
    · have hcases := advance_cases h
      simp [hoops] at hcases
    · exact htracks
  have hnext := course_step h htracks
  obtain ⟨-,hhandler,hcourse⟩ := moved_cases s c m
  have hbusy : (s.moved c m).led.handler ≠ .idle → s.led.handler ≠ .idle := by
    intro hbusy
    obtain hsame | hidle := hhandler
    · rwa [hsame] at hbusy
    · exact absurd hidle hbusy
  have hirq : (s.moved c m).led.handler ≠ .idle → .irq ∈ c.held := fun hb =>
    irq_stays h hadmits (hbusy hb) (hs.handler (hbusy hb))
  obtain hcourse | ⟨-,hout,-,hcourse⟩ := hcourse
  · refine ⟨.inr ?_,fun hb => ?_⟩
    · rwa [hcourse]
    · rw [State.holds,hcourse]
      exact hirq hb
  · have hempty : c.held = [] := by
      simp only [Driver.Tracks, hout] at hnext
      exact hnext
    refine ⟨.inl ?_,fun hb => ?_⟩
    · rw [hcourse]
      exact ⟨rfl,hempty⟩
    · rw [State.holds,hcourse]
      exact hirq hb

theorem inv_step {a : Act} (h : step w i s a = some t) (hs : Inv i s) : Inv i t := by
  cases a with
  | move m =>
    simp only [step, Option.ite_none_right_eq_some, Option.map_eq_some_iff] at h
    obtain ⟨hadmits,c,hc,rfl⟩ := h
    exact inv_move hs hc hadmits
  | exampleGpioOpen =>
    simp only [step, Option.ite_none_right_eq_some, Option.some.injEq] at h
    obtain ⟨-,rfl⟩ := h
    exact inv_of_course hs rfl .inl
  | exampleGpioRelease =>
    simp only [step, Option.ite_none_left_eq_some, Option.some.injEq] at h
    obtain ⟨-,rfl⟩ := h
    exact inv_of_course hs rfl .inl
  | exampleGpioRead user buf copy =>
    simp only [step, Option.ite_none_left_eq_some, Option.some.injEq] at h
    obtain ⟨-,rfl⟩ := h
    exact hs
  | led b =>
    cases b with
    | irq =>
      simp only [step, Option.ite_none_right_eq_some, Option.map_eq_some_iff] at h
      obtain ⟨hirq,led,hled,rfl⟩ := h
      exact inv_led hs hled fun _ => hirq
    | write stack recBuf buf len copy =>
      simp only [step, Option.ite_none_left_eq_some, Option.map_eq_some_iff] at h
      obtain ⟨-,led,hled,rfl⟩ := h
      exact inv_led hs hled fun hb => nomatch hb
    | tick n =>
      simp only [step, Option.map_eq_some_iff] at h
      obtain ⟨led,hled,rfl⟩ := h
      exact inv_led hs hled fun hb => nomatch hb
    | handler =>
      simp only [step, Option.map_eq_some_iff] at h
      obtain ⟨led,hled,rfl⟩ := h
      exact inv_led hs hled fun hb => nomatch hb
  | value v =>
    simp only [step, Option.ite_none_right_eq_some, Option.some.injEq] at h
    obtain ⟨-,rfl⟩ := h
    refine inv_of_course hs (drive_course _ _) fun hbusy => .inl ?_
    rwa [drive_handler] at hbusy
  | outside level output =>
    simp only [step] at h
    split_ifs at h <;> cases h <;> exact inv_of_course hs rfl .inl

/-- As a load leaves the variables until pin 21 is set. -/
structure Fresh (l : Led.State) : Prop where
  ledToggle : l.ledToggle = 0
  handler : l.handler = .idle
  accepted : l.accepted = 0
  lastWrite : l.lastWrite = none

/-- What holds besides when files are opened only while the module is loaded. -/
structure Used (i : Variant) (s : State) : Prop where
  course : (driver i).Tracks s.course
  files : s.files ≠ 0 → s.course.stage = .loaded
  fresh : ∀ rest, s.course.stage = .init rest → .gpioDirectionOutput gpio21Out ∈ rest.map Rung.call → Fresh s.led
  driven : Configured s.course → s.course.ok (.gpioDirectionOutput gpio21Out) = true → s.output = true ∧ Led.Inv s.led

theorem not_late_of_fresh {x : Resource} (hx : Late x) (hs : Used i s) {rest : List (Rung KernelCall Resource)}
    (hstage : s.course.stage = .init rest) (hahead : .gpioDirectionOutput gpio21Out ∈ rest.map Rung.call) :
    ¬ s.holds x := by
  cases rest with
  | nil => cases hahead
  | cons r rest => exact not_late_of_ahead hx hs.course hstage

theorem drive_of_output (hout : s.output = true) (led : Led.State) : s.drive led = {s with led := led} := by
  rw [State.drive,if_pos hout]

/-- A file that is open is one of a loaded module. -/
theorem files_of_init (hs : Used i s) {rest : List (Rung KernelCall Resource)} (hstage : s.course.stage = .init rest) :
    s.files = 0 := by
  by_contra hopen
  cases hstage.symm.trans (hs.files hopen)

theorem used_led {b : Led.Act} {led : Led.State} (hs : Used i s) (h : Led.step w s.led b = some led)
    (hirq : b = .irq → s.holds .irq)
    (hwrite : ∀ stack recBuf buf len copy, b = .write stack recBuf buf len copy → s.files ≠ 0) :
    Used i (s.drive led) := by
  refine ⟨hs.course,hs.files,fun rest hstage hahead => ?_,fun hconf hok => ?_⟩
  · obtain ⟨hled,hidle,hacc,hlast⟩ := hs.fresh rest hstage hahead
    cases b with
    | irq => exact absurd (hirq rfl) (not_late_of_fresh (.inl rfl) hs hstage hahead)
    | write stack recBuf buf len copy =>
      exact absurd (files_of_init hs hstage) (hwrite stack recBuf buf len copy rfl)
    | tick n =>
      cases h
      unfold State.drive
      split_ifs <;> exact ⟨hled,hidle,hacc,hlast⟩
    | handler =>
      simp only [Led.step, Led.handlerStep, hidle] at h
      cases h
  · obtain ⟨hout,hinv⟩ := hs.driven hconf hok
    rw [drive_of_output hout]
    exact ⟨hout,Led.inv_step h hinv⟩

theorem used_value (hs : Used i s) (hexported : s.holds .exported) (v : Bool) :
    Used i (s.drive {s.led with gpio21 := v, lastWrite := some v}) := by
  refine ⟨hs.course,hs.files,fun rest hstage hahead => ?_,fun hconf hok => ?_⟩
  · exact absurd hexported (not_late_of_fresh (.inr rfl) hs hstage hahead)
  · obtain ⟨hout,hled,-⟩ := hs.driven hconf hok
    rw [drive_of_output hout]
    exact ⟨hout,hled,rfl⟩

/-- What others do to the pin they can do only to an input, or to a pin that is free. -/
theorem used_outside (hs : Used i s) (level output : Bool) (hinput : s.holds (.gpio gpio21Out) → s.output = false) :
    Used i {s with led := {s.led with gpio21 := level}, output := output} := by
  refine ⟨hs.course,hs.files,fun rest hstage hahead => ?_,fun hconf hok => ?_⟩
  · obtain ⟨hled,hidle,hacc,hlast⟩ := hs.fresh rest hstage hahead
    exact ⟨hled,hidle,hacc,hlast⟩
  · have hinput' := hinput (pin_of_configured hs.course hconf)
    rw [(hs.driven hconf hok).1] at hinput'
    cases hinput'

theorem used_call {r : Rung KernelCall Resource} {rest : List (Rung KernelCall Resource)} (hs : Used i s)
    (hstage : s.course.stage = .init (r::rest)) (hc : (driver i).Tracks (s.course.make r rest)) :
    Used i (s.moved (s.course.make r rest) .call) := by
  have hfiles := files_of_init hs hstage
  have hfresh := hs.fresh _ hstage
  have hdriven : r.call ≠ .gpioDirectionOutput gpio21Out → .gpioDirectionOutput gpio21Out ∉ rest.map Rung.call →
      s.course.ok (.gpioDirectionOutput gpio21Out) = true → s.output = true ∧ Led.Inv s.led := by
    intro hne hbehind
    refine hs.driven (.inr ⟨_,hstage,fun hmem => ?_⟩)
    obtain heq | hmem := List.mem_cons.mp hmem
    · exact hne heq.symm
    · exact hbehind hmem
  -- only in `init rest` is anything claimed of the next stage
  have hnext : ∀ rest', (s.course.make r rest).stage = .init rest' → rest' = rest := by
    intro rest' hstage'
    obtain hstage'' | ⟨l,hstage''⟩ | hstage'' := make_stage s.course r rest
    all_goals
      rw [hstage''] at hstage'
      cases hstage'
    rfl
  have hbehind : Configured (s.course.make r rest) → .gpioDirectionOutput gpio21Out ∉ rest.map Rung.call := by
    rintro (hloaded | ⟨rest',hstage',hbehind⟩)
    · obtain hstage'' | ⟨l,hstage''⟩ | hstage'' := make_stage s.course r rest
      all_goals
        rw [hstage''] at hloaded
        cases hloaded
    · rwa [hnext rest' hstage'] at hbehind
  simp only [State.moved, hstage]
  split_ifs with hset
  · obtain ⟨hcall,hok⟩ := hset
    obtain ⟨hled,hidle,hacc,hlast⟩ := hfresh (List.mem_map.mpr ⟨r,List.mem_cons_self,hcall⟩)
    refine ⟨hc,fun hopen => absurd hfiles hopen,fun rest' _ _ => ⟨hled,hidle,hacc,hlast⟩,fun _ _ => ⟨rfl,?_,?_⟩⟩
    · simp [hled, hidle, Led.State.commanded, hacc]
    · simp [hlast, Led.State.commanded, hacc]
  · refine ⟨hc,fun hopen => absurd hfiles hopen,fun rest' hstage' hahead => ?_,fun hconf hok => ?_⟩
    · rw [hnext rest' hstage'] at hahead
      exact hfresh (List.mem_cons_of_mem _ hahead)
    · rw [make_ok] at hok
      exact hdriven (fun hcall => hset ⟨hcall,hcall ▸ hok⟩) (hbehind hconf) hok

/-- Where no pin is in use, nothing is claimed. -/
theorem used_elsewhere (hc : (driver i).Tracks c) (hclosed : s.files = 0)
    (hinit : ∀ rest, c.stage ≠ .init rest) (hloaded : c.stage ≠ .loaded) : Used i {s with course := c} := by
  refine ⟨hc,fun hopen => absurd hclosed hopen,fun rest hstage => absurd hstage (hinit rest),fun hconf => ?_⟩
  obtain hstage | ⟨rest,hstage,-⟩ := hconf
  · exact absurd hstage hloaded
  · exact absurd hstage (hinit rest)

theorem used_move (hs : Used i s) (h : (driver i).advance s.course m = some c) (hadmits : s.admits m = true) :
    Used i (s.moved c m) := by
  have hnext := course_step h hs.course
  have hclosed : s.course.stage ≠ .loaded → s.files = 0 := by
    intro hne
    by_contra hopen
    exact hne (hs.files hopen)
  obtain ⟨v,ok,rfl,hstage,rfl⟩ | ⟨r,rest,rfl,hstage,rfl⟩ | ⟨rfl,hstage,rfl⟩ | ⟨x,rest,rfl,hstage,rfl⟩ |
    ⟨x,rest,rfl,hstage,rfl⟩ | ⟨rfl,hstage,rfl⟩ | ⟨rfl,hstage,rfl⟩ := advance_cases h
  · refine ⟨hnext,fun hopen => absurd (hclosed (by simp [hstage])) hopen,fun _ _ _ => ⟨rfl,rfl,rfl,rfl⟩,fun hconf => ?_⟩
    obtain hloaded | ⟨rest,hinit,hbehind⟩ := hconf
    · cases hloaded
    · cases hinit
      exact absurd (direction_after_request (List.suffix_refl _) (by
        obtain ⟨r,hr,hcall,-⟩ := request_of_init i v
        exact hcall ▸ List.mem_map_of_mem hr)) hbehind
  · exact used_call hs hstage hnext
  · have hfiles : s.files = 0 := by simpa [State.admits] using hadmits
    refine used_elsewhere hnext hfiles (fun rest => ?_) ?_
    all_goals
      dsimp only
      split_ifs <;> simp
  · exact used_elsewhere hnext (hclosed (by simp [hstage])) (by simp) (by simp)
  · exact used_elsewhere hnext (hclosed (by simp [hstage])) (by simp) (by simp)
  · refine ⟨hnext,fun _ => rfl,fun rest hinit => (by cases hinit),fun _ hok => ?_⟩
    exact hs.driven (.inr ⟨[],hstage,by simp⟩) hok
  · have hfiles := hclosed (by obtain h | h := hstage <;> simp [h])
    have hmoved : s.moved {s.course with stage := .out} .ret = {s with course := {s.course with stage := .out}} := by
      unfold State.moved
      rw [if_neg (fun hfreed => hfreed.2 hfiles)]
    rw [hmoved]
    exact used_elsewhere hnext hfiles (by simp) (by simp)

/-- A file is opened only while the module is loaded. -/
def OpensLoaded (s : State) : Act → Prop
  | .exampleGpioOpen => s.course.stage.isLoaded = true
  | _ => True

instance (s : State) : DecidablePred (OpensLoaded s)
  | .exampleGpioOpen => inferInstanceAs (Decidable (_ = true))
  | .move _ | .exampleGpioRelease | .exampleGpioRead _ _ _ | .led _ | .value _ | .outside _ _ =>
    inferInstanceAs (Decidable True)

theorem used_step {a : Act} (h : step w i s a = some t) (hC : OpensLoaded s a) (hs : Used i s) : Used i t := by
  cases a with
  | move m =>
    simp only [step, Option.ite_none_right_eq_some, Option.map_eq_some_iff] at h
    obtain ⟨hadmits,c,hc,rfl⟩ := h
    exact used_move hs hc hadmits
  | exampleGpioOpen =>
    simp only [step, Option.ite_none_right_eq_some, Option.some.injEq] at h
    obtain ⟨-,rfl⟩ := h
    exact ⟨hs.course,fun _ => Stage.isLoaded_iff.mp hC,hs.fresh,hs.driven⟩
  | exampleGpioRelease =>
    simp only [step, Option.ite_none_left_eq_some, Option.some.injEq] at h
    obtain ⟨hopen,rfl⟩ := h
    exact ⟨hs.course,fun _ => hs.files hopen,hs.fresh,hs.driven⟩
  | exampleGpioRead user buf copy =>
    simp only [step, Option.ite_none_left_eq_some, Option.some.injEq] at h
    obtain ⟨-,rfl⟩ := h
    exact hs
  | led b =>
    cases b with
    | irq =>
      simp only [step, Option.ite_none_right_eq_some, Option.map_eq_some_iff] at h
      obtain ⟨hirq,led,hled,rfl⟩ := h
      exact used_led hs hled (fun _ => hirq) fun _ _ _ _ _ hb => (by cases hb)
    | write stack recBuf buf len copy =>
      simp only [step, Option.ite_none_left_eq_some, Option.map_eq_some_iff] at h
      obtain ⟨hopen,led,hled,rfl⟩ := h
      exact used_led hs hled (fun hb => (by cases hb)) fun _ _ _ _ _ _ => hopen
    | tick n =>
      simp only [step, Option.map_eq_some_iff] at h
      obtain ⟨led,hled,rfl⟩ := h
      exact used_led hs hled (fun hb => (by cases hb)) fun _ _ _ _ _ hb => (by cases hb)
    | handler =>
      simp only [step, Option.map_eq_some_iff] at h
      obtain ⟨led,hled,rfl⟩ := h
      exact used_led hs hled (fun hb => (by cases hb)) fun _ _ _ _ _ hb => (by cases hb)
  | value v =>
    simp only [step, Option.ite_none_right_eq_some, Option.some.injEq] at h
    obtain ⟨hexported,rfl⟩ := h
    exact used_value hs hexported v
  | outside level output =>
    simp only [step] at h
    split_ifs at h with hheld hout
    · cases h
      have hinput : s.output = false := Bool.not_eq_true _ ▸ hout
      exact used_outside hs level s.output fun _ => hinput
    · cases h
      exact used_outside hs level output fun hheld' => absurd hheld' hheld

end Steps

/-- From load to unload. A handler runs only while its interrupt and both pins are held, the exported pin is held,
and a module that is out holds nothing. As long as files are opened only while the module is loaded, its code is
never freed under an open file, every file is one of a loaded module that holds pin 21, and if the direction of the
pin could be set its level is the one that the last write or accepted interrupt has set, or the 0 of the load. A
read delivers that level in one byte, and returns 0 all the same. -/
theorem pins_held_in_use {w : ℕ} {i : Variant} {level output : Bool} {acts : List Act} {s : State}
    (h : run (step w i) (start level output) acts = some s) :
    (s.led.handler ≠ .idle → s.holds .irq) ∧
    (s.holds .irq → s.holds (.gpio gpio21Out) ∧ s.holds (.gpio gpio25In)) ∧
    (s.holds .exported → s.holds (.gpio gpio21Out)) ∧
    (s.course.stage = .out → s.course.held = [] ∧ s.led.handler = .idle) ∧
    (Meets (step w i) OpensLoaded (start level output) acts →
      s.course.stage ≠ .oops ∧
      (s.files ≠ 0 → s.course.stage = .loaded ∧ s.holds (.gpio gpio21Out)) ∧
      (s.course.stage = .loaded → s.course.ok (.gpioDirectionOutput gpio21Out) = true →
        s.output = true ∧ s.led.gpio21 = s.led.lastWrite.getD s.led.commanded ∧
        ∀ user buf, exampleGpioRead s.led.gpio21 user buf .done =
          ⟨blit user buf 1 fun _ => if s.led.lastWrite.getD s.led.commanded then 1 else 0,0⟩)) := by
  have hs : Inv i s := run_invariant (fun _ _ _ => inv_step) h ⟨.inr rfl,fun hbusy => absurd rfl hbusy⟩
  have hlate : ∀ {x}, Late x → s.holds x → s.holds (.gpio gpio21Out) ∧ (x = .irq → s.holds (.gpio gpio25In)) := by
    intro x hx hheld
    obtain ⟨-,hempty⟩ | htracks := hs.course
    · rw [State.holds,hempty] at hheld
      cases hheld
    · exact pins_of_late hx htracks hheld
  have hout : s.course.stage = .out → s.course.held = [] := by
    intro hstage
    obtain ⟨hoops,-⟩ | htracks := hs.course
    · cases hstage.symm.trans hoops
    · simp only [Driver.Tracks, hstage] at htracks
      exact htracks
  refine ⟨hs.handler,fun hirq => ⟨(hlate (.inl rfl) hirq).1,(hlate (.inl rfl) hirq).2 rfl⟩,
    fun hexported => (hlate (.inr rfl) hexported).1,fun hstage => ⟨hout hstage,?_⟩,fun hC => ?_⟩
  · by_contra hbusy
    have hirq := hs.handler hbusy
    rw [State.holds,hout hstage] at hirq
    cases hirq
  · have hused : Used i s := run_invariant_of_meets (fun _ _ _ => used_step) hC h
      ⟨rfl,fun hopen => absurd rfl hopen,fun rest hstage => (by cases hstage),fun hconf => (by
        obtain hstage | ⟨rest,hstage,-⟩ := hconf <;> cases hstage)⟩
    refine ⟨fun hoops => ?_,fun hopen => ?_,fun hloaded hok => ?_⟩
    · have hcourse := hused.course
      simp only [Driver.Tracks, hoops] at hcourse
    · exact ⟨hused.files hopen,pin_of_configured hused.course (.inl (hused.files hopen))⟩
    · obtain ⟨hdriven,hinv⟩ := hused.driven (.inl hloaded) hok
      refine ⟨hdriven,hinv.gpio21,fun user buf => ?_⟩
      rw [hinv.gpio21]
      rfl

/-- A load in which everything succeeds. -/
def loading (number calls : ℕ) : List Act :=
  .move (.load number fun _ => true)::List.replicate calls (.move .call) ++ [.move .ret]

/-- A `1` is written, and an interrupt accepted whose handler is about to set the pin. -/
def blinking : List Act :=
  loading 240 13 ++ [.exampleGpioOpen,.led (.write (fun _ => 0) 0 (fun _ => 0x31) 1 .done),.led (.tick 20),.led .irq,
    .led .handler,.led .handler]

theorem pins_held_in_use_blinking : ∃ s, run (step 64 .gpioIrq) (start true false) blinking = some s ∧
    s.led.handler ≠ .idle ∧ s.holds (.gpio gpio25In) ∧ s.holds (.gpio gpio21Out) ∧ s.led.gpio21 = true ∧
    (exampleGpioRead s.led.gpio21 (fun _ => 0) 5 .done).user 5 = 1 := by
  obtain ⟨s,hs,hp⟩ := exists_of_run_any (step 64 .gpioIrq) (start true false) blinking
    (fun s => s.led.handler ≠ .idle ∧ s.files = 1 ∧ s.course.ok (.gpioDirectionOutput gpio21Out) = true ∧
      s.led.lastWrite = some true) (by decide +kernel)
  obtain ⟨hbusy,hfiles,hok,hlast⟩ := of_decide_eq_true hp
  have hC : Meets (step 64 .gpioIrq) OpensLoaded (start true false) blinking :=
    meets_of_check (fun s a => decide (OpensLoaded s a)) (fun _ _ h => of_decide_eq_true h) (by decide +kernel)
  obtain ⟨hirq,hpins,-,-,hused⟩ := pins_held_in_use hs
  obtain ⟨-,hopen,hdriven⟩ := hused hC
  obtain ⟨hloaded,hpin⟩ := hopen (by rw [hfiles]; decide)
  obtain ⟨-,hlevel,hread⟩ := hdriven hloaded hok
  rw [hlast] at hlevel hread
  exact ⟨s,hs,hbusy,(hpins (hirq hbusy)).2,hpin,hlevel,congrFun (congrArg ReadResult.user (hread (fun _ => 0) 5)) 5⟩

/-- The device answers before init has asked for the pins: a file opened then drives a pin that is somebody
else's. -/
example : (run (step 64 .gpioIrq) (start false false) [.move (.load 240 fun _ => true),.move .call,.move .call,
    .move .call,.exampleGpioOpen,.outside false true,.led (.write (fun _ => 0) 0 (fun _ => 0x31) 1 .done)]).map
      (fun s => (s.led.gpio21,decide (s.holds (.gpio gpio21Out)))) = some (true,false) := by decide +kernel

end ExampleKernel.Gpio.Lifetime
