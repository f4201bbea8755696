import ExampleKernel.Oled.SameProgram

/-! What each display driver makes of a module that it finds in some state: `ETX_SSD1306_DisplayInit`
resets it by a pin, `SSD1306_DisplayInit` of the I2C driver has no such pin. -/
namespace ExampleKernel.Oled
open ExampleKernel.Foundation

/-- The screen is empty, the window is the whole screen, and both cursors are at its first cell. -/
structure Cleared (p : Panel) (lineNum cursorPos : UInt8) : Prop where
  ram : ∀ c, fullWindow.Contains c → p.ram c = 0
  window : p.window = fullWindow
  pointer : p.pointer = (0,0)
  lineNum : lineNum = 0
  cursorPos : cursorPos = 0

theorem fullWindow_area : fullWindow.height*fullWindow.width = Spi.total := rfl

theorem fullWindow_origin : fullWindow.Contains (0,0) := ⟨le_rfl,Nat.zero_le _,le_rfl,Nat.zero_le _⟩

namespace Spi

theorem setCursor_counters (s : Ssd1306 Display) : (setCursor Display.receive s 0 0).lineNum = 0 ∧
    (setCursor Display.receive s 0 0).cursorPos = 0 ∧
    (setCursor Display.receive s 0 0).bus.rst = s.bus.rst := by
  rw [setCursor,if_pos (by decide)]
  simp only [write_rst]
  exact ⟨rfl,rfl,trivial⟩

/-- A cleared display is clear, whatever it showed. -/
theorem clearDisplay_cleared {s : Ssd1306 Display} (hs : Ready s) :
    Cleared (clearDisplay Display.receive s).bus.panel (clearDisplay Display.receive s).lineNum
      (clearDisplay Display.receive s).cursorPos := by
  obtain ⟨hl,hc,hr⟩ := setCursor_counters s
  have hpanel : (setCursor Display.receive s 0 0).bus.panel = moved s.bus.panel 0 0 :=
    setCursor_panel hs (by decide)
  have hwindow : (setCursor Display.receive s 0 0).bus.panel.window = fullWindow := by rw [hpanel]; rfl
  have hpointer : (setCursor Display.receive s 0 0).bus.panel.pointer = (0,0) := by rw [hpanel]; rfl
  rw [clearDisplay,fill_eq_writes]
  obtain ⟨hline,hcursor,-,hfilled⟩ := writes_panel (hr.trans hs.rst) false (List.replicate total 0x00)
  simp only [Panel.take] at hfilled
  refine ⟨fun c hin => ?_,?_,?_,hline.trans hl,hcursor.trans hc⟩
  · rw [hfilled,Panel.fill_ram_iff,hwindow,hpointer]
    exact .inl (Window.visits fullWindow_origin hin)
  · rw [hfilled,Panel.storeAll_window,hwindow]
  · rw [hfilled,Panel.storeAll_pointer,hwindow,hpointer,List.length_replicate,← fullWindow_area]
    exact Window.iterate_area fullWindow_origin

/-- Filling with zeros from wherever the pointer is, and moving the cursor home only then. -/
theorem fill_home {s : Ssd1306 Display} (hs : Ready s) :
    (setCursor Display.receive (fill Display.receive s 0x00) 0 0).lineNum = 0 ∧
    (setCursor Display.receive (fill Display.receive s 0x00) 0 0).cursorPos = 0 ∧
    (setCursor Display.receive (fill Display.receive s 0x00) 0 0).bus.panel =
      moved ((List.replicate total 0x00).foldl Panel.store s.bus.panel) 0 0 := by
  obtain ⟨hl,hc,-⟩ := setCursor_counters (fill Display.receive s 0x00)
  refine ⟨hl,hc,?_⟩
  rw [fill_eq_writes]
  obtain ⟨-,-,hrst,hfilled⟩ := writes_panel hs.rst false (List.replicate total 0x00)
  simp only [Panel.take] at hfilled
  have hready : Ready (writes Display.receive s false (List.replicate total 0x00)) :=
    ⟨hrst.trans hs.rst,by rw [hfilled,Panel.storeAll_command,hs.command]⟩
  rw [setCursor_panel hready (by decide),hfilled]
  rfl

end Spi

namespace I2c

/-- A message on the bus: a control byte, then bytes of the kind that it announces. -/
def message (p : Panel) : List UInt8 → Panel
  | [] => p
  | control::bs => bs.foldl (Panel.take (kindOf control = .command)) p

/-- A module that runs shows the same panel to both buses. -/
theorem carries_panel : Carries Spi.Display.receive message fun d p => d.rst = true ∧ d.panel = p := by
  rintro d p isCmd data ⟨hrst,rfl⟩
  cases isCmd <;>
    simp [Spi.Display.receive, Spi.Display.drive, Spi.rstPin, Spi.dcPin, hrst, message, kindOf, Panel.take]

/-- The SPI driver with the same cursor, on a module that shows the same panel. -/
def twin (t : Ssd1306 Panel) : Spi.Ssd1306 Spi.Display := ⟨t.lineNum,t.cursorPos,⟨t.bus,true,true⟩⟩

theorem twin_same (t : Ssd1306 Panel) : Same (fun (d : Spi.Display) p => d.rst = true ∧ d.panel = p) (twin t) t :=
  ⟨rfl,rfl,rfl,rfl⟩

/-- The initialisation leaves the panel of the twin as it is. -/
theorem initCommands_twin {t : Ssd1306 Panel} (hidle : t.bus.command = none) : ∃ u, Spi.Still (twin t) u ∧
    Same (fun (d : Spi.Display) p => d.rst = true ∧ d.panel = p) u
      (initCommands.foldl (fun t b => write message t true b) t) :=
  ⟨_,Spi.still_of_receive _ rfl (Spi.receive_initCommands hidle),
    writes_same carries_panel (twin_same t) true initCommands⟩

/-- `etx_oled_probe` up to its `SSD1306_SetCursor`. -/
def bringUp {γ : Type} (send : γ → List UInt8 → γ) (t : Ssd1306 γ) : Ssd1306 γ :=
  setCursor send (displayInit send t) 0 0

/-- The window, the pointer and the counters are right after the bring-up; the cells that are clear are
those that the scan from the pointer on passes, and those that were clear. -/
theorem bringUp_cleared_iff {t : Ssd1306 Panel} (hidle : t.bus.command = none) :
    Cleared (bringUp message t).bus (bringUp message t).lineNum (bringUp message t).cursorPos ↔
      ∀ c, fullWindow.Contains c → (∃ i < total, t.bus.window.next^[i] t.bus.pointer = c) ∨ t.bus.ram c = 0 := by
  obtain ⟨u,hstill,hinit⟩ := initCommands_twin hidle
  obtain ⟨hline,hcursor,-,hpanel⟩ := setCursor_same carries_panel (fill_same carries_panel hinit 0x00) 0 0
  obtain ⟨hl,hc,hfilled⟩ := Spi.fill_home (s := u) ⟨hstill.rst,by rw [hstill.panel]; exact hidle⟩
  rw [hfilled,hstill.panel] at hpanel
  have hbus : (bringUp message t).bus = Spi.moved ((List.replicate Spi.total 0x00).foldl Panel.store t.bus) 0 0 :=
    hpanel.symm
  rw [hbus,total_eq]
  have hram : ∀ c, (Spi.moved ((List.replicate Spi.total 0x00).foldl Panel.store t.bus) 0 0).ram c = 0 ↔
      (∃ i < Spi.total, t.bus.window.next^[i] t.bus.pointer = c) ∨ t.bus.ram c = 0 := by
    intro c
    rw [Spi.moved_ram]
    exact Panel.fill_ram_iff t.bus 0 Spi.total c
  constructor
  · intro h c hin
    exact (hram c).mp (h.ram c hin)
  · intro h
    exact ⟨fun c hin => (hram c).mpr (h c hin),rfl,rfl,hline.symm.trans hl,hcursor.symm.trans hc⟩

/-- In a window of the screen with the pointer inside, the scan passes the cells of the window. -/
theorem passed_iff {w : Window} {c d : ℕ × ℕ} (hc : w.Contains c) (hrow : w.rowEnd ≤ 7) (hcol : w.colEnd ≤ 127) :
    (∃ i < total, w.next^[i] c = d) ↔ w.Contains d := by
  constructor
  · rintro ⟨i,-,rfl⟩
    exact Window.iterate_contains hc i
  · intro hd
    obtain ⟨i,hi,hvisit⟩ := Window.visits hc hd
    have hheight : w.height ≤ 8 := by unfold Window.height; omega
    have hwidth : w.width ≤ 128 := by unfold Window.width; omega
    exact ⟨i,hi.trans_le (by rw [total,Nat.mul_comm 128]; exact Nat.mul_le_mul hheight hwidth),hvisit⟩

end I2c

/-- The SPI driver clears the display from any state. The I2C driver clears it exactly when each cell
of the screen is passed by the scan of 1024 cells from the pointer on, in the window of before, or is
zero already; where the pointer is inside a window of the screen, when each cell outside the window is
zero already. -/
theorem bring_up_clears_iff {gpio : Spi.Gpio} (hgranted : gpio.Granted) (s : Spi.Ssd1306 Spi.Display)
    {t : I2c.Ssd1306 Panel} (hidle : t.bus.command = none) :
    (Cleared (Spi.displayInit Spi.Display.receive gpio s).1.bus.panel
          (Spi.displayInit Spi.Display.receive gpio s).1.lineNum
          (Spi.displayInit Spi.Display.receive gpio s).1.cursorPos ∧
        Cleared (I2c.bringUp I2c.message t).bus (I2c.bringUp I2c.message t).lineNum
          (I2c.bringUp I2c.message t).cursorPos ↔
      ∀ c, fullWindow.Contains c → (∃ i < I2c.total, t.bus.window.next^[i] t.bus.pointer = c) ∨ t.bus.ram c = 0) ∧
    (t.bus.window.Contains t.bus.pointer → t.bus.window.rowEnd ≤ 7 → t.bus.window.colEnd ≤ 127 →
      ((∀ c, fullWindow.Contains c → (∃ i < I2c.total, t.bus.window.next^[i] t.bus.pointer = c) ∨ t.bus.ram c = 0) ↔
        ∀ c, fullWindow.Contains c → ¬ t.bus.window.Contains c → t.bus.ram c = 0)) := by
  obtain ⟨u,hu,hinit⟩ := Spi.displayInit_ready ((Spi.displayInit_iff Spi.Display.receive gpio s).mpr hgranted)
  have hspi := Spi.clearDisplay_cleared hu
  rw [← hinit] at hspi
  constructor
  · rw [and_iff_right hspi]
    exact I2c.bringUp_cleared_iff hidle
  · intro hin hrow hcol
    apply forall_congr'
    intro c
    apply imp_congr_right
    intro _
    rw [I2c.passed_iff hin hrow hcol,or_iff_not_imp_left]

/-- Both modules show a full picture and have the whole screen as their window. -/
theorem bring_up_clears_full_window : Cleared
      (I2c.bringUp I2c.message ⟨3,200,⟨fun _ => 0xFF,fullWindow,(4,66),none,[]⟩⟩).bus
      (I2c.bringUp I2c.message ⟨3,200,⟨fun _ => 0xFF,fullWindow,(4,66),none,[]⟩⟩).lineNum
      (I2c.bringUp I2c.message ⟨3,200,⟨fun _ => 0xFF,fullWindow,(4,66),none,[]⟩⟩).cursorPos := by
  have hin : fullWindow.Contains (4,66) := ⟨by decide,by decide,by decide,by decide⟩
  obtain ⟨hiff,hwindow⟩ := bring_up_clears_iff (by decide : Spi.Gpio.Granted ⟨fun _ => true,fun _ => 0⟩)
    ⟨3,200,⟨⟨fun _ => 0xFF,⟨2,5,60,70⟩,(4,66),some (0x21,[9]),[]⟩,false,true⟩⟩
    (t := ⟨3,200,⟨fun _ => 0xFF,fullWindow,(4,66),none,[]⟩⟩) rfl
  exact (hiff.mpr ((hwindow hin (by decide) (by decide)).mpr fun c hc hout => (hout hc).elim)).2

/-- A module that an earlier run left in its last line: a fill covers this line only. -/
theorem bring_up_keeps_old_picture : ∃ gpio : Spi.Gpio, gpio.Granted ∧ ∃ (s : Spi.Ssd1306 Spi.Display)
    (t : I2c.Ssd1306 Panel), t.bus.command = none ∧ t.bus.window.Contains t.bus.pointer ∧
      ¬ (Cleared (Spi.displayInit Spi.Display.receive gpio s).1.bus.panel
          (Spi.displayInit Spi.Display.receive gpio s).1.lineNum
          (Spi.displayInit Spi.Display.receive gpio s).1.cursorPos ∧
        Cleared (I2c.bringUp I2c.message t).bus (I2c.bringUp I2c.message t).lineNum
          (I2c.bringUp I2c.message t).cursorPos) := by
  have hin : (⟨7,7,0,127⟩ : Window).Contains (7,0) := ⟨by decide,by decide,by decide,by decide⟩
  refine ⟨⟨fun _ => true,fun _ => 0⟩,by decide,⟨0,0,⟨⟨fun _ => 0xFF,fullWindow,(0,0),none,[]⟩,true,true⟩⟩,
    ⟨7,0,⟨fun _ => 0xFF,⟨7,7,0,127⟩,(7,0),none,[]⟩⟩,rfl,hin,fun hboth => ?_⟩
  have hcell := (I2c.bringUp_cleared_iff rfl).mp hboth.2 (0,0) fullWindow_origin
  rw [I2c.passed_iff hin le_rfl le_rfl] at hcell
  obtain hpassed | hzero := hcell
  · exact absurd hpassed.rowStart (by decide)
  · exact absurd hzero (by decide)

end ExampleKernel.Oled
