import ExampleKernel.Oled.BringUp
import ExampleKernel.Oled.Buses

/-! A controller that can leave the horizontal addressing mode. Both drivers choose that mode once, in
the initialisation, and never look whether the controller is still in it. -/
namespace ExampleKernel.Oled
open ExampleKernel.Foundation

/-- A controller with the history of the addressing modes that the command 0x20 gave it; it runs in the
last one. -/
structure Moded where
  panel : Panel
  modes : List UInt8

namespace Moded

/-- The two low bits of the argument say the mode. -/
def Horizontal (m : Moded) : Prop := ∀ mode ∈ m.modes.getLast?, mode &&& 3 = 0

instance (m : Moded) : Decidable m.Horizontal := inferInstanceAs (Decidable (∀ mode ∈ _, _))

/-- The controller has been in no other mode. -/
def Straight (m : Moded) : Prop := ∀ mode ∈ m.modes, mode &&& 3 = 0

/-- RST selects the page addressing mode. -/
def reset (m : Moded) : Moded := ⟨m.panel.reset,m.modes ++ [2]⟩

variable (other : Bool → Panel → UInt8 → Panel)

/-- In another mode commands are read the same, and `other` says what becomes of window, pointer and RAM. -/
def take (isCmd : Bool) (m : Moded) (b : UInt8) : Moded where
  panel :=
    if m.Horizontal then Panel.take isCmd m.panel b
    else {other isCmd m.panel b with command := (Panel.take isCmd m.panel b).command}
  modes := if isCmd ∧ m.panel.command = some (0x20,[]) then m.modes ++ [b] else m.modes

/-- A message on the I2C bus, as `I2c.message` has it. -/
def message (m : Moded) : List UInt8 → Moded
  | [] => m
  | control::bs => bs.foldl (take other (I2c.kindOf control = .command)) m

@[simp] theorem take_command (isCmd : Bool) (m : Moded) (b : UInt8) :
    (take other isCmd m b).panel.command = (Panel.take isCmd m.panel b).command := by
  unfold take
  split_ifs <;> rfl

/-- Modes are not forgotten. -/
theorem modes_subset_take (isCmd : Bool) (m : Moded) (b : UInt8) : m.modes ⊆ (take other isCmd m b).modes := by
  by_cases h : isCmd ∧ m.panel.command = some (0x20,[])
  · rw [take,if_pos h]
    exact List.subset_append_left _ _
  · rw [take,if_neg h]
    exact List.Subset.refl _

end Moded

/-- `p` is what the panel of `m` is unless `m` has been in another mode; the modes `ms` are known of `m`. -/
structure Follows (ms : List UInt8) (p : Panel) (m : Moded) : Prop where
  modes : ms ⊆ m.modes
  panel : m.Straight → p = m.panel

section Follows
variable {ms : List UInt8} {p : Panel} {m : Moded}

theorem Moded.Straight.of_subset {m m' : Moded} (h : m.modes ⊆ m'.modes) (hm : m'.Straight) : m.Straight :=
  fun mode hmode => hm mode (h hmode)

theorem Moded.Straight.horizontal (hm : m.Straight) : m.Horizontal :=
  fun mode hmode => hm mode (List.mem_of_getLast? hmode)

theorem follows_refl (m : Moded) : Follows m.modes m.panel m := ⟨List.Subset.refl _,fun _ => rfl⟩

theorem Follows.take (h : Follows ms p m) (other : Bool → Panel → UInt8 → Panel) (isCmd : Bool) (b : UInt8) :
    Follows ms (Panel.take isCmd p b) (m.take other isCmd b) := by
  have hsubset := Moded.modes_subset_take other isCmd m b
  refine ⟨List.Subset.trans h.modes hsubset,fun hstraight => ?_⟩
  have hbefore := Moded.Straight.of_subset hsubset hstraight
  rw [h.panel hbefore,Moded.take,if_pos hbefore.horizontal]

end Follows

namespace Spi

/-- The controller with the levels of its RST and DC lines, as `Display` has it. -/
structure ModedDisplay where
  moded : Moded
  rst : Bool
  dc : Bool

namespace ModedDisplay

def drive (d : ModedDisplay) (pin value : ℕ) : ModedDisplay :=
  if pin = rstPin then {d with
    rst := value ≠ 0
    moded := if value = 0 then d.moded.reset else d.moded}
  else if pin = dcPin then {d with dc := value ≠ 0}
  else d

variable (other : Bool → Panel → UInt8 → Panel)

def receive (d : ModedDisplay) : Wire → ModedDisplay
  | .gpioDirectionOutput pin value => d.drive pin value
  | .gpioSetValue pin value => d.drive pin value
  | .spi b => if d.rst then {d with moded := d.moded.take other (!d.dc) b} else d
  | .gpioRequest _ | .gpioFree _ => d

end ModedDisplay

/-- A controller in horizontal mode is that of `Display`. -/
theorem conveys_follows (other : Bool → Panel → UInt8 → Panel) (ms : List UInt8) :
    Conveys Display.receive (ModedDisplay.receive other)
      fun d b => (d.rst = true ∧ b.rst = true) ∧ Follows ms d.panel b.moded := by
  rintro d b isCmd data ⟨⟨hd,hb⟩,hfollows⟩
  have htake := hfollows.take other isCmd data
  cases isCmd <;>
    simpa [Display.receive, Display.drive, ModedDisplay.receive, ModedDisplay.drive, rstPin, dcPin, hd, hb,
      Panel.take] using htake

end Spi

namespace I2c

/-- A module behind a bus with noise: for each message sent, what arrives in its place. An empty list is a
lost message; after the end of `noise` every message arrives as it was sent. -/
structure Noisy where
  moded : Moded
  noise : List (List UInt8 → List UInt8)

section Noisy
variable (other : Bool → Panel → UInt8 → Panel)

def Noisy.receive (b : Noisy) (sent : List UInt8) : Noisy :=
  match b.noise with
  | [] => {b with moded := b.moded.message other sent}
  | garble::noise => ⟨b.moded.message other (garble sent),noise⟩

/-- Without noise a controller in horizontal mode is that of an SPI module. -/
theorem carries_follows (ms : List UInt8) : Carries Spi.Display.receive (Noisy.receive other)
    fun d b => (d.rst = true ∧ b.noise = []) ∧ Follows ms d.panel b.moded := by
  rintro d b isCmd data ⟨⟨hd,hnoise⟩,hfollows⟩
  obtain ⟨hrst,hpanel⟩ := carries_panel d d.panel isCmd data ⟨hd,rfl⟩
  have htake := hfollows.take other isCmd data
  refine ⟨⟨hrst,by simp only [Noisy.receive, hnoise]⟩,?_⟩
  simp only [Noisy.receive, hnoise]
  rw [hpanel]
  cases isCmd <;> exact htake

end Noisy

end I2c

end ExampleKernel.Oled
