import ExampleKernel.Oled.Fill
import ExampleKernel.Oled.Pins

/-! What is on the screen while the modules are loaded, and what they leave on it. -/
namespace ExampleKernel.Oled
open ExampleKernel.Foundation

namespace Panel

variable {p : Panel} {bs : List UInt8}

/-- Cells that the pointer does not pass keep their byte. -/
theorem storeAll_ram_of_ne {c : ℕ × ℕ} (h : ∀ i < bs.length, p.window.next^[i] p.pointer ≠ c) :
    (bs.foldl store p).ram c = p.ram c := by
  induction bs generalizing p with
  | nil => rfl
  | cons b bs ih =>
    have hhead : c ≠ p.pointer := Ne.symm (h 0 (Nat.succ_pos _))
    rw [List.foldl_cons,ih fun i hi => h (i+1) (Nat.succ_lt_succ hi)]
    exact Function.update_of_ne hhead _ _

/-- A picture of at most one round of the window: each byte stays in the cell it was stored in. -/
theorem storeAll_ram_iterate (hin : p.window.Contains p.pointer) (hlen : bs.length ≤ p.window.height*p.window.width)
    {i : ℕ} (hi : i < bs.length) : bs[i]? = some ((bs.foldl store p).ram (p.window.next^[i] p.pointer)) := by
  induction bs generalizing p i with
  | nil => contradiction
  | cons b bs ih =>
    rw [List.length_cons] at hi hlen
    cases i with
    | zero =>
      have hnever : ∀ j < bs.length, (p.store b).window.next^[j] (p.store b).pointer ≠ p.pointer := by
        intro j hj hback
        have hround : p.window.next^[j+1] p.pointer = p.pointer := hback
        have hdvd := (Window.iterate_eq_self_iff hin (j+1)).mp hround
        exact absurd (Nat.le_of_dvd (Nat.succ_pos j) hdvd) (by omega)
      rw [List.foldl_cons,Function.iterate_zero_apply,storeAll_ram_of_ne hnever]
      exact congrArg some (Function.update_self p.pointer b p.ram).symm
    | succ i =>
      rw [List.getElem?_cons_succ,List.foldl_cons]
      exact ih (p := p.store b) (Window.next_contains hin) (Nat.le_of_succ_le hlen) (Nat.lt_of_succ_lt_succ hi)

end Panel

/-- The screen shows the picture, given line by line. -/
def Shows (p : Panel) (picture : List UInt8) : Prop :=
  ∀ line < 8, ∀ col < 128, picture[line*128+col]? = some (p.ram (line,col))

def Dark (p : Panel) : Prop := ∀ c, fullWindow.Contains c → p.ram c = 0

theorem shows_of_screen {p : Panel} (hwindow : p.window = fullWindow) (hpointer : p.pointer = (0,0))
    {picture : List UInt8} (hlen : picture.length = Spi.total) : Shows (picture.foldl Panel.store p) picture := by
  intro line hline col hcol
  have hin : fullWindow.Contains (line,col) :=
    ⟨Nat.zero_le _,Nat.le_of_lt_succ hline,Nat.zero_le _,Nat.le_of_lt_succ hcol⟩
  have hindex : fullWindow.index (line,col) = line*128+col := rfl
  have hlt : line*128+col < Spi.total := hindex ▸ Window.index_lt hin
  have hplace : p.window.next^[line*128+col] p.pointer = (line,col) := by
    rw [hwindow,hpointer,Window.iterate_eq_iff fullWindow_origin]
    refine ⟨hin,?_⟩
    rw [fullWindow_area,hindex]
    exact (congrArg (·%Spi.total) (Nat.zero_add _)).trans (Nat.mod_eq_of_lt hlt)
  have hcell : picture[line*128+col]? =
      some ((picture.foldl Panel.store p).ram (p.window.next^[line*128+col] p.pointer)) :=
    Panel.storeAll_ram_iterate (by rw [hwindow,hpointer]; exact fullWindow_origin)
      (by rw [hwindow,fullWindow_area,hlen]) (by rwa [hlen])
  rwa [hplace] at hcell

namespace Spi

theorem printLogo_shows {s t : Ssd1306 Display} (hs : Ready s) (h : printLogo Display.receive s = some t) :
    Shows t.bus.panel etxLogo := by
  rw [printLogo_eq_writes] at h
  have hpanel := setCursor_panel hs (show (0 : UInt8) ≤ maxLine ∧ (0 : UInt8) < maxSeg by decide)
  obtain ⟨-,-,-,hwritten⟩ := writes_panel (((setCursor_counters s).2.2).trans hs.rst) false etxLogo
  rw [← Option.some.inj h,hwritten]
  exact shows_of_screen (by rw [hpanel]; rfl) (by rw [hpanel]; rfl) etxLogo_length

/-- To free the pins does nothing to the controller. -/
theorem displayDeInit_panel (s : Ssd1306 Display) : (displayDeInit Display.receive s).bus.panel = s.bus.panel := rfl

theorem etxSpiExit_dark {m : Module Display} (hdevice : m.etxSpiDevice = true) (hs : Ready m.display) :
    Dark (etxSpiExit Display.receive m).display.bus.panel := by
  rw [etxSpiExit,if_pos hdevice,displayDeInit_panel]
  exact (clearDisplay_cleared hs).ram

/-- The last thing that `etx_spi_init` does is to print the logo. -/
theorem greeting_shows {s t : Ssd1306 Display} (hs : Running s)
    (h : run (exec Display.receive) s greeting = some t) : Running t ∧ Shows t.bus.panel etxLogo := by
  have hsplit : greeting = greeting.dropLast ++ [.printLogo] := rfl
  rw [hsplit,run_concat_eq_some] at h
  obtain ⟨u,hu,hlogo⟩ := h
  exact ⟨exec_running hlogo (run_running hu hs),printLogo_shows (run_running hu hs).ready hlogo⟩

end Spi

namespace I2c

section Module
variable {γ : Type} (send : γ → List UInt8 → γ)

/-- `etx_oled_probe` -/
def etxOledProbe (t : Ssd1306 γ) : Option (Ssd1306 γ) :=
  let t := displayInit send t
  let t := setCursor send t 0 0
  let t := startScrollHorizontal send t true 0 2
  string send t (Spi.text "Welcome\nTo\nNanjing China\n\n")

/-- `etx_oled_remove` -/
def etxOledRemove (t : Ssd1306 γ) : Option (Ssd1306 γ) :=
  (string send t (Spi.text "ThanK YoU!!!")).map fun t =>
    let t := setCursor send t 0 0
    let t := fill send t 0x00
    write send t true 0xAE

/-- `etx_driver_init`, given whether `i2c_get_adapter` and `i2c_new_client_device` give a pointer. To add the
driver probes the device; its result is not looked at. -/
def etxDriverInit (adapter client : Bool) (t : Ssd1306 γ) : Option (Ssd1306 γ × ℤ) :=
  if adapter then
    if client then (etxOledProbe send t).map fun t => (t,0) else some (t,-1)
  else some (t,-1)

/-- Load the module, call display operations, unload it: `etx_driver_exit` unregisters the device, which
removes it. -/
def lifetime (adapter client : Bool) (ops : List Op) (t : Ssd1306 γ) : Option (Ssd1306 γ × ℤ) :=
  (etxDriverInit send adapter client t).bind fun (t,ret) =>
    if ret = 0 then ((run (exec send) t ops).bind (etxOledRemove send)).map fun t => (t,ret) else some (t,ret)

end Module

theorem texts_printable : (∀ c ∈ Spi.text "Welcome\nTo\nNanjing China\n\n", Spi.Printable c) ∧
    ∀ c ∈ Spi.text "ThanK YoU!!!", Spi.Printable c := by
  constructor <;> decide +kernel

/-- The probe leaves a controller with its pointer on the screen. -/
theorem probe_running {t : Ssd1306 Panel} (hidle : t.bus.command = none) : ∃ u v, etxOledProbe message t = some v ∧
    Spi.Running u ∧ Same (fun (d : Spi.Display) p => d.rst = true ∧ d.panel = p) u v := by
  obtain ⟨u,hstill,hinit⟩ := initCommands_twin hidle
  have hready : Spi.Ready u := ⟨hstill.rst,by rw [hstill.panel]; exact hidle⟩
  have hfilled : Spi.Ready (Spi.fill Spi.Display.receive u 0x00) := by
    rw [Spi.fill_eq_writes]
    obtain ⟨-,-,hrst,hpanel⟩ := Spi.writes_panel hready.rst false (List.replicate Spi.total 0x00)
    refine ⟨hrst.trans hready.rst,?_⟩
    rw [hpanel]
    exact (Panel.storeAll_command _ _).trans hready.command
  have hmoved := Spi.moved_running hfilled (show (0 : UInt8) ≤ Spi.maxLine ∧ (0 : UInt8) < Spi.maxSeg by decide)
  have hscroll := Spi.running_of_still (Spi.startScrollHorizontal_still hmoved.ready true 0 2) hmoved
  obtain ⟨s,hs⟩ := Spi.string_total Spi.Display.receive _ texts_printable.1
  have hrel := string_same carries_panel (startScrollHorizontal_same carries_panel
    (setCursor_same carries_panel (fill_same carries_panel hinit 0x00) 0 0) true 0 2)
      (Spi.text "Welcome\nTo\nNanjing China\n\n")
  rw [hs] at hrel
  obtain ⟨v,hv,hsame⟩ := exists_of_rel hrel
  exact ⟨s,v,hv,Spi.string_running hs hscroll,hsame⟩

/-- Whatever is on the screen, the removal leaves it dark. -/
theorem remove_dark {s : Spi.Ssd1306 Spi.Display} {t : Ssd1306 Panel} (hs : Spi.Running s)
    (hsame : Same (fun (d : Spi.Display) p => d.rst = true ∧ d.panel = p) s t) :
    ∃ u, etxOledRemove message t = some u ∧ Dark u.bus := by
  obtain ⟨v,hv⟩ := Spi.string_total Spi.Display.receive s texts_printable.2
  have hrel := string_same carries_panel hsame (Spi.text "ThanK YoU!!!")
  rw [hv] at hrel
  obtain ⟨w,hw,hthanks⟩ := exists_of_rel hrel
  have hready := (Spi.string_running hv hs).ready
  have hcleared := Spi.clearDisplay_cleared hready
  have hfilled : Same _ (Spi.clearDisplay Spi.Display.receive v) (fill message (setCursor message w 0 0) 0x00) :=
    fill_same carries_panel (setCursor_same carries_panel hthanks 0 0) 0x00
  have hclear : Spi.Running (Spi.clearDisplay Spi.Display.receive v) :=
    Spi.fill_running (Spi.moved_running hready (by decide)) 0x00
  have hoff : Spi.Still (Spi.clearDisplay Spi.Display.receive v)
      (Spi.writes Spi.Display.receive (Spi.clearDisplay Spi.Display.receive v) true [0xAE]) :=
    Spi.still_of_receive [0xAE] hclear.rst
      (Panel.receive_complete hclear.screen.command [] (by decide) (by decide))
  have hlast : Same _ (Spi.writes Spi.Display.receive (Spi.clearDisplay Spi.Display.receive v) true [0xAE])
      (write message (fill message (setCursor message w 0 0) 0x00) true 0xAE) :=
    write_same carries_panel hfilled true 0xAE
  refine ⟨_,by rw [etxOledRemove,hw,Option.map_some],fun c hc => ?_⟩
  rw [← hlast.bus.2,hoff.panel]
  exact hcleared.ram c hc

end I2c

/-- Where both pins are granted and the SPI set-up succeeds, or the I2C adapter and client are found and the
controller waits for a command, the module loads, and its unload leaves a dark screen, whatever was on it before
and whatever is called with characters of the font in between; the SPI module shows its logo when it has loaded.
All bytes arrive, and what a scroll makes of the RAM is left out. -/
theorem unload_leaves_dark :
    (∀ (gpio : Spi.Gpio) (ops : List Spi.Op) (m : Spi.Module Spi.Display), gpio.Granted → (∀ op ∈ ops, op.InFont) →
      (∃ loaded, Spi.etxSpiInit Spi.Display.receive ⟨true,true,0⟩ gpio m = some (loaded,0) ∧
        Shows loaded.display.bus.panel etxLogo) ∧
      ∃ out, Spi.lifetime Spi.Display.receive ⟨true,true,0⟩ gpio ops m = some (out,0) ∧ Dark out.display.bus.panel) ∧
    (∀ (ops : List I2c.Op) (t : I2c.Ssd1306 Panel), t.bus.command = none → (∀ op ∈ ops, op.Printable) →
      ∃ u, I2c.lifetime I2c.message true true ops t = some (u,0) ∧ Dark u.bus) := by
  constructor
  · intro gpio ops m hgranted hops
    have hinit := (Spi.displayInit_iff Spi.Display.receive gpio m.display).mpr hgranted
    obtain ⟨s,hs⟩ := Spi.run_total Spi.Display.receive (Spi.displayInit Spi.Display.receive gpio m.display).1
      Spi.greeting_inFont
    obtain ⟨hrunning,hlogo⟩ := Spi.greeting_shows (Spi.displayInit_running hinit) hs
    obtain ⟨t,ht⟩ := Spi.run_total Spi.Display.receive s hops
    have hload : Spi.etxSpiInit Spi.Display.receive ⟨true,true,0⟩ gpio m =
        some (⟨s,true,some (Spi.displayInit Spi.Display.receive gpio m.display).2⟩,0) := by
      simp [Spi.etxSpiInit, hs]
    refine ⟨⟨_,hload,hlogo⟩,Spi.etxSpiExit Spi.Display.receive
      ⟨t,true,some (Spi.displayInit Spi.Display.receive gpio m.display).2⟩,?_,?_⟩
    · simp [Spi.lifetime, hload, ht]
    · exact Spi.etxSpiExit_dark rfl (Spi.run_running ht hrunning).ready
  · intro ops t hidle hops
    obtain ⟨s,v,hprobe,hrunning,hsame⟩ := I2c.probe_running hidle
    obtain ⟨s',hs'⟩ := I2c.run_total Spi.Display.receive s hops
    have hrun := run_rel (fun _ _ op h => I2c.exec_same I2c.carries_panel h op) hsame ops
    rw [hs'] at hrun
    obtain ⟨v',hv',hsame'⟩ := exists_of_rel hrun
    obtain ⟨u,hu,hdark⟩ := I2c.remove_dark (Spi.run_running hs' hrunning) hsame'
    refine ⟨u,?_,hdark⟩
    simp [I2c.lifetime, I2c.etxDriverInit, hprobe, hv', hu]

/-- A module with a small window and an old picture, and a fill that goes round the last line. -/
theorem unload_leaves_dark_after_fill : ∃ u,
    I2c.lifetime I2c.message true true [.setCursor 7 100,.fill 0xFF]
      ⟨3,200,⟨fun _ => 0xFF,⟨2,5,60,70⟩,(4,66),none,[]⟩⟩ = some (u,0) ∧ u.bus.ram (7,127) = 0 := by
  obtain ⟨u,hu,hdark⟩ := unload_leaves_dark.2 [.setCursor 7 100,.fill 0xFF]
    ⟨3,200,⟨fun _ => 0xFF,⟨2,5,60,70⟩,(4,66),none,[]⟩⟩ rfl (by simp [I2c.Op.Printable])
  exact ⟨u,hu,hdark (7,127) ⟨Nat.zero_le _,le_rfl,Nat.zero_le _,le_rfl⟩⟩

end ExampleKernel.Oled
