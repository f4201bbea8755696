import ExampleKernel.Foundation.Transition
import ExampleKernel.Kernel.Basic

/-! The level of GPIO 21 under its two writers: `example_gpio_write`, and `gpio_irq_handler` of
the gpio_irq variant, which keeps a copy of the level in `led_toggle`. -/
namespace ExampleKernel.Gpio
open ExampleKernel.Foundation ExampleKernel.Kernel

/-- The stack after the call, the level passed to `gpio_set_value` if any, and the return value. -/
structure WriteResult where
  stack : ℕ → UInt8
  value : Option Bool
  ret : ℤ

/-- `rec_buf` has ten bytes, `copy_from_user` is asked for `len`. Both variants of the driver. -/
def exampleGpioWrite (stack : ℕ → UInt8) (recBuf : ℕ) (buf : ℕ → UInt8) (len : ℕ) (copy : UserCopy) :
    WriteResult :=
  let zeroed := blit stack recBuf 10 fun _ => 0
  let filled := match copy with
    | .fault k rest =>
      if k < len then copyFromUserFault zeroed recBuf len k buf rest else blit zeroed recBuf len buf
    | .done => blit zeroed recBuf len buf
  let value := if (filled recBuf).toNat = '1'.toNat then some true
    else if (filled recBuf).toNat = '0'.toNat then some false
    else none
  ⟨filled,value,len⟩

namespace Led

/-- Program points of `gpio_irq_handler`, each before the statement it is named after. The
interrupt is masked while its handler runs. -/
inductive HandlerPc
  | idle | storeJiffie | toggle | setValue
  deriving DecidableEq

/-- `jiffies` counts all ticks, of which the code sees the low bits. `accepted` and `lastWrite` are
history: the accepted interrupts that have set the pin, and what the last write since the latest
of them has set it to. -/
structure State where
  jiffies : ℕ
  oldJiffie : ℕ
  ledToggle : UInt32
  gpio21 : Bool
  handler : HandlerPc
  accepted : ℕ
  lastWrite : Option Bool

/-- What `unsigned long` of `w` bits holds of the tick count. -/
def jiffiesOf (w ticks : ℕ) : ℕ := ticks%2^w

/-- The debounce test. -/
def accepts (w : ℕ) (s : State) : Prop := ¬ (jiffiesOf w s.jiffies+2^w-s.oldJiffie)%2^w < 20

instance (w : ℕ) (s : State) : Decidable (accepts w s) := inferInstanceAs (Decidable (¬ _))

/-- The level that `gpio_set_value` gives a pin. -/
def gpioSetValue (value : UInt32) : Bool := value ≠ 0

/-- The start of the handler, up to the debounce test. -/
def gpioIrqHandler (w : ℕ) (s : State) : State :=
  if accepts w s then {s with handler := .storeJiffie} else s

/-- The rest of the handler. `jiffies` is read a second time. -/
def handlerStep (w : ℕ) (s : State) : Option State :=
  match s.handler with
  | .idle => none
  | .storeJiffie => some {s with oldJiffie := jiffiesOf w s.jiffies, handler := .toggle}
  | .toggle => some {s with ledToggle := 0x01 ^^^ s.ledToggle, handler := .setValue}
  | .setValue => some {s with
      gpio21 := gpioSetValue s.ledToggle
      handler := .idle
      accepted := s.accepted+1
      lastWrite := none}

/-- `tick n` lets `n` ticks pass. -/
inductive Act
  | tick (n : ℕ)
  | irq
  | handler
  | write (stack : ℕ → UInt8) (recBuf : ℕ) (buf : ℕ → UInt8) (len : ℕ) (copy : UserCopy)

def step (w : ℕ) (s : State) : Act → Option State
  | .tick n => some {s with jiffies := s.jiffies+n}
  | .irq => if s.handler = .idle then some (gpioIrqHandler w s) else none
  | .handler => handlerStep w s
  | .write stack recBuf buf len copy =>
    match (exampleGpioWrite stack recBuf buf len copy).value with
    | some v => some {s with gpio21 := v, lastWrite := some v}
    | none => some s

/-- After `gpio_direction_output(GPIO_21_OUT, 0)`. -/
def loaded : State where
  jiffies := 0
  oldJiffie := 0
  ledToggle := 0
  gpio21 := false
  handler := .idle
  accepted := 0
  lastWrite := none

/-- What it means for a step that interrupts invert the pin: an accepted interrupt finds `led_toggle`
equal to the level of the pin, and its handler sets the pin to the opposite of its level. -/
def Inverts (w : ℕ) (s : State) : Act → Prop
  | .irq => s.handler = .idle → accepts w s → gpioSetValue s.ledToggle = s.gpio21
  | .handler => s.handler = .setValue → gpioSetValue s.ledToggle = !s.gpio21
  | _ => True

/-- The level that the latest accepted interrupt has set, or `example_gpio_init`. -/
def State.commanded (s : State) : Bool := s.accepted%2 = 1

/-- When an interrupt passes the debounce test, and when its handler sets the pin, the last write
since the latest accepted interrupt, if there is one, has set the level that was there already. -/
def Undisturbed (w : ℕ) (s : State) : Act → Prop
  | .irq => s.handler = .idle → accepts w s → ∀ v ∈ s.lastWrite, v = s.commanded
  | .handler => s.handler = .setValue → ∀ v ∈ s.lastWrite, v = s.commanded
  | _ => True

/-- `led_toggle` is the parity of the toggles, the pin has what was written last. -/
structure Inv (s : State) : Prop where
  ledToggle : s.ledToggle = if (s.commanded ^^ decide (s.handler = .setValue)) then 1 else 0
  gpio21 : s.gpio21 = s.lastWrite.getD s.commanded

theorem inv_loaded : Inv loaded := ⟨rfl,rfl⟩

theorem gpioSetValue_ite (b : Bool) : gpioSetValue (if b then 1 else 0) = b := by cases b <;> rfl

theorem xor_toggle (b : Bool) : 0x01 ^^^ (if b then 1 else 0 : UInt32) = if !b then 1 else 0 := by
  cases b <;> rfl

/-- The next accepted interrupt commands the other level. -/
theorem commanded_succ (n : ℕ) : decide ((n+1)%2 = 1) = !decide (n%2 = 1) := by
  obtain h | h := Nat.mod_two_eq_zero_or_one n <;> simp [Nat.add_mod, h]

theorem inv_step {w : ℕ} {s t : State} {a : Act} (h : step w s a = some t) (hs : Inv s) : Inv t := by
  obtain ⟨hled,hpin⟩ := hs
  cases a with
  | tick n => cases h; exact ⟨hled,hpin⟩
  | irq =>
    simp only [step, gpioIrqHandler, Option.ite_none_right_eq_some, Option.some.injEq] at h
    obtain ⟨hidle,rfl⟩ := h
    rw [hidle] at hled
    split_ifs
    · exact ⟨hled,hpin⟩
    · exact ⟨by rw [hidle]; exact hled,hpin⟩
  | handler =>
    simp only [step, handlerStep] at h
    cases hpc : s.handler with
    | idle => simp [hpc] at h
    | storeJiffie =>
      simp only [hpc, Option.some.injEq] at h
      subst h
      rw [hpc] at hled
      exact ⟨hled,hpin⟩
    | toggle =>
      simp only [hpc, Option.some.injEq] at h
      subst h
      rw [hpc] at hled
      refine ⟨?_,hpin⟩
      show 0x01 ^^^ s.ledToggle = _
      rw [hled,xor_toggle]
      simp [State.commanded]
    | setValue =>
      simp only [hpc, Option.some.injEq] at h
      subst h
      rw [hpc] at hled
      have hnext : s.ledToggle = if decide ((s.accepted+1)%2 = 1) then 1 else 0 := by
        rw [hled,commanded_succ]
        simp [State.commanded]
      refine ⟨by simpa [State.commanded] using hnext,?_⟩
      show gpioSetValue s.ledToggle = _
      rw [hnext,gpioSetValue_ite]
      rfl
  | write stack recBuf buf len copy =>
    simp only [step] at h
    split at h
    · cases h; exact ⟨hled,rfl⟩
    · cases h; exact ⟨hled,hpin⟩

theorem eq_getD_iff (o : Option Bool) (b : Bool) : b = o.getD b ↔ ∀ v ∈ o, v = b := by
  cases o with
  | none => simp
  | some v => simp [eq_comm]

/-- While the two copies of the level are kept as they are, a step inverts the pin exactly when no
write came between. -/
theorem inverts_iff_undisturbed {w : ℕ} {s : State} (a : Act) (hs : Inv s) :
    Inverts w s a ↔ Undisturbed w s a := by
  obtain ⟨hled,hpin⟩ := hs
  cases a with
  | tick | write => exact Iff.rfl
  | irq =>
    apply imp_congr_right
    intro hidle
    have hcopy : gpioSetValue s.ledToggle = s.commanded := by rw [hled,gpioSetValue_ite,hidle]; simp
    rw [hcopy,hpin,eq_getD_iff]
  | handler =>
    apply imp_congr_right
    intro hset
    have hcopy : gpioSetValue s.ledToggle = !s.commanded := by rw [hled,gpioSetValue_ite,hset]; simp
    rw [hcopy,hpin,Bool.not_inj_iff,eq_getD_iff]

/-- Every accepted interrupt of a run inverts the LED exactly when each of them finds the pin as
the one before it has left it. -/
theorem interrupt_inverts_iff (w : ℕ) (acts : List Act) :
    Meets (step w) (Inverts w) loaded acts ↔ Meets (step w) (Undisturbed w) loaded acts :=
  meets_congr (I := Inv) (fun _ _ _ => inv_step) (fun _ a hs => inverts_iff_undisturbed a hs) inv_loaded acts

/-- A `1` is written, then an interrupt is accepted: the pin stays high. -/
theorem interrupt_after_write : ¬ ∀ acts, Meets (step 64) (Inverts 64) loaded acts := by
  intro h
  have hrun := h [.write (fun _ => 0) 0 (fun _ => 0x31) 1 .done,.tick 20,.irq]
  have hlow := (((hrun.2 _ rfl).2 _ rfl).1) rfl (by decide)
  contradiction

end Led

end ExampleKernel.Gpio
