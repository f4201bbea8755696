import ExampleKernel.Oled.Buses

/-! The SPI display driver and its two pins, from `etx_spi_init` to `etx_spi_exit`, whatever the SPI
set-up and the GPIO requests answer. -/
namespace ExampleKernel.Oled.Spi
open ExampleKernel.Foundation

def enodev : ℤ := 19

/-- The answers of the SPI set-up: whether `spi_busnum_to_master` and `spi_new_device` give a pointer,
and the result of `spi_setup`. -/
structure Setup where
  master : Bool
  newDevice : Bool
  setup : ℤ

/-- The module. `etxSpiDevice` tells whether the pointer is not `NULL`; `initRet` is history, what
`ETX_SSD1306_DisplayInit` returned. -/
structure Module (β : Type) where
  display : Ssd1306 β
  etxSpiDevice : Bool
  initRet : Option ℤ

/-- The bytes of a C string, without its terminator. -/
def text (str : String) : List UInt8 := str.toList.map fun c => UInt8.ofNat c.toNat

/-- What `etx_spi_init` shows once the display is initialised. -/
def greeting : List Op := [.setBrightness 255,.invertDisplay false,.startScrollHorizontal true 0 2,
  .setCursor 0 0,.string (text "Welcome\nTo\nEmbeTronicX\n"),
  .setCursor 4 35,.string (text "SPI Linux\n"),
  .setCursor 5 23,.string (text "Device Driver\n"),
  .setCursor 6 37,.string (text "Tutorial\n"),
  .clearDisplay,.deactivateScroll,.printLogo]

section Module
variable {β : Type} (send : β → Wire → β)

/-- `etx_spi_init`. The result of `ETX_SSD1306_DisplayInit` is not looked at. -/
def etxSpiInit (env : Setup) (gpio : Gpio) (m : Module β) : Option (Module β × ℤ) :=
  if env.master = false then some (m,-enodev)
  else if env.newDevice = false then some ({m with etxSpiDevice := false},-enodev)
  else if env.setup ≠ 0 then some ({m with etxSpiDevice := true},-enodev)
  else
    let (s,ret) := displayInit send gpio m.display
    (run (exec send) s greeting).map fun s => (⟨s,true,some ret⟩,0)

/-- `etx_spi_exit` -/
def etxSpiExit (m : Module β) : Module β :=
  if m.etxSpiDevice then {m with display := displayDeInit send (clearDisplay send m.display)} else m

/-- Load the module, call display operations, unload it; a load that fails is all that happens. The
result is the module at the end and what `etx_spi_init` returned. -/
def lifetime (env : Setup) (gpio : Gpio) (ops : List Op) (m : Module β) : Option (Module β × ℤ) :=
  (etxSpiInit send env gpio m).bind fun (m,ret) =>
    if ret = 0 then
      (run (exec send) m.display ops).map fun s => (etxSpiExit send {m with display := s},ret)
    else some (m,ret)

end Module

/-- The pins that this driver holds. `misused` is history: it has driven or freed a pin without
holding it, or requested one that it holds. -/
structure Pins where
  held : List ℕ
  misused : Bool
  deriving DecidableEq

def Pins.receive (p : Pins) : Wire → Pins
  | .gpioRequest pin => ⟨pin::p.held,p.misused || pin ∈ p.held⟩
  | .gpioDirectionOutput pin _ | .gpioSetValue pin _ => {p with misused := p.misused || pin ∉ p.held}
  | .gpioFree pin => ⟨p.held.erase pin,p.misused || pin ∉ p.held⟩
  | .spi _ => p

/-- The driver loaded from its file, holding nothing. -/
def unloaded : Module Pins := ⟨⟨0,0,⟨[],false⟩⟩,false,none⟩

/-- The set-up of the SPI device goes wrong, and the module is not loaded. -/
def Setup.Fails (env : Setup) : Prop := env.master = false ∨ env.newDevice = false ∨ env.setup ≠ 0

/-- Only pins held were driven and freed, all are given back, and a load that returned 0 had a display
that was initialised. -/
structure Respects (out : Module Pins × ℤ) : Prop where
  misused : out.1.display.bus.misused = false
  held : out.1.display.bus.held = []
  initialised : out.2 = 0 → ∃ ret, out.1.initRet = some ret ∧ 0 ≤ ret

/-- While both pins are held, bytes misuse nothing. -/
def Pins.Both (p : Pins) : Prop := p.held = [dcPin,rstPin] ∧ p.misused = false

theorem keeps_both : Keeps Pins.receive Pins.Both := by
  rintro p isCmd data ⟨hheld,hmisused⟩
  exact ⟨hheld,by simp [Pins.receive, hheld, hmisused]⟩

/-- A misuse is not forgotten. -/
theorem keeps_misused : Keeps Pins.receive fun p => p.misused = true := by
  intro p isCmd data hmisused
  simp [Pins.receive, hmisused]

/-- Both pins or none: a request refused gives back what was granted before it. -/
theorem resetDcInit_pins (gpio : Gpio) : (resetDcInit Pins.receive gpio unloaded.display).1.bus =
    if gpio.Granted then ⟨[dcPin,rstPin],false⟩ else ⟨[],false⟩ := by
  have hgranted := resetDcInit_iff Pins.receive gpio unloaded.display
  unfold resetDcInit at hgranted ⊢
  split_ifs at hgranted ⊢ with hrst hrstReq hdc hdcReq hall <;> first | rfl | simp_all

theorem displayInit_pins (gpio : Gpio) : if gpio.Granted then
      Pins.Both (displayInit Pins.receive gpio unloaded.display).1.bus
    else (displayInit Pins.receive gpio unloaded.display).1.bus = ⟨[],false⟩ := by
  have hpins := resetDcInit_pins gpio
  have hret := resetDcInit_iff Pins.receive gpio unloaded.display
  unfold displayInit
  cases hreset : resetDcInit Pins.receive gpio unloaded.display with
  | mk s ret =>
    rw [hreset] at hpins hret
    simp only at hpins hret ⊢
    split_ifs at hpins ⊢ with hall hok hok
    · have hboth : Pins.Both (setRst Pins.receive (setRst Pins.receive s 0) 1).bus := by
        simp [setRst, wire, Pins.receive, hpins, Pins.Both]
      have hcommands := writes_kept keeps_both hboth true initCommands
      rw [writes] at hcommands
      have hcleared := clearDisplay_kept keeps_both hcommands
      exact hcleared
    · exact absurd (hret.mpr hall) hok
    · exact absurd (hret.mp hok) hall
    · exact hpins

@[simp] theorem etxSpiExit_initRet {β : Type} (send : β → Wire → β) (m : Module β) :
    (etxSpiExit send m).initRet = m.initRet := by
  unfold etxSpiExit
  split_ifs <;> rfl

/-- What `etx_spi_exit` leaves of the pins. -/
theorem exit_pins {m : Module Pins} (hdevice : m.etxSpiDevice = true) :
    (m.display.bus.Both → (etxSpiExit Pins.receive m).display.bus = ⟨[],false⟩) ∧
    (m.display.bus.misused = true → (etxSpiExit Pins.receive m).display.bus.misused = true) := by
  rw [etxSpiExit,if_pos hdevice]
  constructor
  · intro hboth
    obtain ⟨hheld,hmisused⟩ := clearDisplay_kept keeps_both hboth
    simp [displayDeInit, resetDcDeInit, wire, Pins.receive, hheld, hmisused, rstPin, dcPin]
  · intro hmisused
    have hclear := clearDisplay_kept keeps_misused hmisused
    simp [displayDeInit, resetDcDeInit, wire, Pins.receive, hclear]

/-- After a display that could not be initialised the greeting drives DC, which is not held. -/
theorem greeting_misuses {s t : Ssd1306 Pins} (hs : s.bus = ⟨[],false⟩)
    (h : run (exec Pins.receive) s greeting = some t) : t.bus.misused = true := by
  obtain ⟨u,hu,hrest⟩ := run_cons_eq_some.mp h
  refine run_kept keeps_misused ?_ hrest
  rw [exec,Option.some.injEq] at hu
  rw [← hu]
  simp [setBrightness, write, wire, setDc, Pins.receive, hs]

/-- What `etx_spi_init` can do. -/
theorem etxSpiInit_cases {β : Type} {send : β → Wire → β} {env : Setup} {gpio : Gpio} {m m' : Module β} {ret : ℤ}
    (h : etxSpiInit send env gpio m = some (m',ret)) :
    (env.Fails ∧ ret = -enodev ∧ m'.display = m.display) ∨
    (¬ env.Fails ∧ ret = 0 ∧ m'.etxSpiDevice = true ∧ m'.initRet = some (displayInit send gpio m.display).2 ∧
      run (exec send) (displayInit send gpio m.display).1 greeting = some m'.display) := by
  unfold etxSpiInit at h
  unfold Setup.Fails
  split_ifs at h with hmaster hdevice hsetup
  · cases h; exact .inl ⟨.inl hmaster,rfl,rfl⟩
  · cases h; exact .inl ⟨.inr (.inl hdevice),rfl,rfl⟩
  · cases h; exact .inl ⟨.inr (.inr hsetup),rfl,rfl⟩
  · obtain ⟨s,hs,hm⟩ := Option.map_eq_some_iff.mp h
    cases hm
    exact .inr ⟨by simp [hmaster, hdevice, hsetup],rfl,rfl,rfl,hs⟩

/-- The driver drives and frees only pins it holds, gives all of them back, and loads only with an
initialised display, exactly when the SPI set-up fails or both pins are granted. -/
theorem pins_respected_iff {env : Setup} {gpio : Gpio} {ops : List Op} {out : Module Pins × ℤ}
    (h : lifetime Pins.receive env gpio ops unloaded = some out) : Respects out ↔ env.Fails ∨ gpio.Granted := by
  obtain ⟨⟨m,ret⟩,hinit,hrest⟩ := Option.bind_eq_some_iff.mp h
  obtain ⟨hfails,rfl,hdisplay⟩ | ⟨hsetup,rfl,hdevice,hret,hgreeting⟩ := etxSpiInit_cases hinit
  · dsimp only at hrest
    rw [if_neg (by decide)] at hrest
    cases hrest
    exact iff_of_true ⟨by rw [hdisplay]; rfl,by rw [hdisplay]; rfl,nofun⟩ (.inl hfails)
  · dsimp only at hrest
    rw [if_pos rfl] at hrest
    obtain ⟨t,hops,hout⟩ := Option.map_eq_some_iff.mp hrest
    have hexit := exit_pins (m := {m with display := t}) hdevice
    have hpins := displayInit_pins gpio
    split_ifs at hpins with hgranted
    · have hboth := run_kept keeps_both (run_kept keeps_both hpins hgreeting) hops
      have hfreed := hexit.1 hboth
      refine iff_of_true ?_ (.inr hgranted)
      rw [← hout]
      refine ⟨by rw [hfreed],by rw [hfreed],fun _ => ?_⟩
      refine ⟨(displayInit Pins.receive gpio unloaded.display).2,?_,(displayInit_iff _ _ _).mpr hgranted⟩
      rw [etxSpiExit_initRet]
      exact hret
    · have hmisused := run_kept keeps_misused (greeting_misuses hpins hgreeting) hops
      refine iff_of_false (fun hrespects => ?_) (by simp [hsetup, hgranted])
      have hclean := hrespects.misused
      rw [← hout,hexit.2 hmisused] at hclean
      exact absurd hclean (by decide)

section Total
variable {β : Type} (send : β → Wire → β)

/-- The calls with characters of the font, which never leave the tables. -/
def Op.InFont : Op → Prop
  | .printChar c => Printable c
  | .string str => ∀ c ∈ str, Printable c
  | _ => True

theorem run_total (s : Ssd1306 β) {ops : List Op} (hops : ∀ op ∈ ops, op.InFont) :
    ∃ t, run (exec send) s ops = some t := by
  induction ops generalizing s with
  | nil => exact ⟨s,rfl⟩
  | cons op ops ih =>
    have hfirst : ∃ u, exec send s op = some u := by
      have hop := hops op List.mem_cons_self
      cases op with
      | printChar c => exact printChar_total send s hop
      | string str => exact string_total send s hop
      | printLogo => exact ⟨_,printLogo_eq_writes send s⟩
      | _ => exact ⟨_,rfl⟩
    obtain ⟨u,hu⟩ := hfirst
    obtain ⟨t,ht⟩ := ih u fun o ho => hops o (List.mem_cons_of_mem _ ho)
    exact ⟨t,run_cons_eq_some.mpr ⟨u,hu,ht⟩⟩

instance (c : UInt8) : Decidable (Printable c) := inferInstanceAs (Decidable (_ ∨ _ ∧ _))

theorem greeting_inFont : ∀ op ∈ greeting, op.InFont := by
  have htexts : ∀ str ∈ [text "Welcome\nTo\nEmbeTronicX\n",text "SPI Linux\n",text "Device Driver\n",
      text "Tutorial\n"],
      ∀ c ∈ str, Printable c := by
    have hall : [text "Welcome\nTo\nEmbeTronicX\n",text "SPI Linux\n",text "Device Driver\n",
        text "Tutorial\n"].all
        (fun str => str.all fun c => decide (Printable c)) = true := by decide
    simpa using hall
  simp only [List.forall_mem_cons, List.not_mem_nil, false_implies, implies_true, and_true] at htexts
  obtain ⟨hwelcome,hspi,hdevice,htutorial⟩ := htexts
  simp only [greeting, List.forall_mem_cons, List.not_mem_nil, false_implies, implies_true, and_true, Op.InFont,
    true_and]
  exact ⟨hwelcome,hspi,hdevice,htutorial⟩

/-- A set-up that succeeds lets the module load, whatever becomes of the pins. -/
theorem lifetime_total (gpio : Gpio) {ops : List Op} (hops : ∀ op ∈ ops, op.InFont) (m : Module β) :
    ∃ out, lifetime send ⟨true,true,0⟩ gpio ops m = some out ∧ out.2 = 0 ∧
      out.1.initRet = some (displayInit send gpio m.display).2 := by
  obtain ⟨s,hs⟩ := run_total send (displayInit send gpio m.display).1 greeting_inFont
  obtain ⟨t,ht⟩ := run_total send s hops
  refine ⟨(etxSpiExit send ⟨t,true,some (displayInit send gpio m.display).2⟩,0),?_,rfl,?_⟩
  · simp [lifetime, etxSpiInit, hs, ht]
  · rw [etxSpiExit_initRet]

end Total

/-- Both pins granted, and a text on the display. -/
theorem pins_respected_iff_granted : ∃ out,
    lifetime Pins.receive ⟨true,true,0⟩ ⟨fun _ => true,fun _ => 0⟩ [.setCursor 7 122,.string [0x41,newline]] unloaded =
      some out ∧ Respects out := by
  have hops : ∀ op ∈ [Op.setCursor 7 122,.string [0x41,newline]], op.InFont := by
    simp [Op.InFont, Printable, newline]
  obtain ⟨out,hout,-⟩ := lifetime_total Pins.receive ⟨fun _ => true,fun _ => 0⟩ hops unloaded
  exact ⟨out,hout,(pins_respected_iff hout).mpr (.inr (by decide))⟩

/-- The DC pin belongs to another driver. The load returns 0 although the display is not initialised,
and pins that are not held are driven or freed. -/
theorem dc_pin_misused : ∃ out,
    lifetime Pins.receive ⟨true,true,0⟩ ⟨fun _ => true,fun pin => if pin = dcPin then -16 else 0⟩ [] unloaded =
      some out ∧ out.2 = 0 ∧ (∃ ret < 0, out.1.initRet = some ret) ∧ ¬ Respects out := by
  obtain ⟨out,hout,hzero,hret⟩ := lifetime_total Pins.receive
    ⟨fun _ => true,fun pin => if pin = dcPin then -16 else 0⟩ (by simp : ∀ op ∈ [], Op.InFont op) unloaded
  have hrefused : ¬ 0 ≤ (displayInit Pins.receive ⟨fun _ => true,fun pin => if pin = dcPin then -16 else 0⟩
      unloaded.display).2 := by
    rw [displayInit_iff]
    decide
  refine ⟨out,hout,hzero,⟨_,not_le.mp hrefused,hret⟩,fun hrespects => ?_⟩
  obtain ⟨ret,hsome,hnonneg⟩ := hrespects.initialised hzero
  cases hret.symm.trans hsome
  exact hrefused hnonneg

end ExampleKernel.Oled.Spi
