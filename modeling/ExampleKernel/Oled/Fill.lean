import ExampleKernel.Oled.BringUp

/-! What `ETX_SSD1306_fill` and `SSD1306_Fill` paint after any sequence of calls. They send 1024 bytes
from wherever the address pointer is, into the window that the last cursor move has left. -/
namespace ExampleKernel.Oled
open ExampleKernel.Foundation

/-- The controller waits for a command, and its pointer is inside a window of the screen. -/
structure OnScreen (p : Panel) : Prop where
  command : p.command = none
  rowEnd : p.window.rowEnd ≤ 7
  colEnd : p.window.colEnd ≤ 127
  contains : p.window.Contains p.pointer

/-- Where the pointer belongs with the cursor in `col` of `line`. Behind a full line it has gone on. -/
def place (w : Window) (line col : ℕ) : ℕ × ℕ := if col < 128 then (line,col) else w.next (line,127)

structure Painted (d : UInt8) (p : Panel) (lineNum cursorPos : UInt8) : Prop where
  ram : ∀ c, fullWindow.Contains c → p.ram c = d
  pointer : p.pointer = place p.window lineNum.toNat cursorPos.toNat

/-- The cells outside the window hold the byte already, and the 1024 bytes lead the pointer to the
place of the cursor. -/
structure Reaches (d : UInt8) (p : Panel) (lineNum cursorPos : UInt8) : Prop where
  outside : ∀ c, fullWindow.Contains c → ¬ p.window.Contains c → p.ram c = d
  contains : p.window.Contains (place p.window lineNum.toNat cursorPos.toNat)
  returns : (p.window.index p.pointer+1024)%(p.window.height*p.window.width) =
    p.window.index (place p.window lineNum.toNat cursorPos.toNat)

theorem OnScreen.stores {p : Panel} (h : OnScreen p) (bs : List UInt8) : OnScreen (bs.foldl Panel.store p) := by
  obtain ⟨hcommand,hrow,hcol,hin⟩ := h
  refine ⟨?_,?_,?_,?_⟩
  · rwa [Panel.storeAll_command]
  · rwa [Panel.storeAll_window]
  · rwa [Panel.storeAll_window]
  · rw [Panel.storeAll_window,Panel.storeAll_pointer]
    exact Window.iterate_contains hin _

/-- After a fill every cell of the screen is painted exactly if the scan passes it or it was painted. -/
theorem stores_painted_iff {p : Panel} (h : OnScreen p) (d line col : UInt8) :
    Painted d ((List.replicate Spi.total d).foldl Panel.store p) line col ↔ Reaches d p line col := by
  have hram : ∀ c, ((List.replicate Spi.total d).foldl Panel.store p).ram c = d ↔
      (p.window.Contains c ∨ p.ram c = d) := by
    intro c
    rw [Panel.fill_ram_iff,← I2c.total_eq,I2c.passed_iff h.contains h.rowEnd h.colEnd]
  have hpointer : ((List.replicate Spi.total d).foldl Panel.store p).pointer =
      place p.window line.toNat col.toNat ↔ p.window.Contains (place p.window line.toNat col.toNat) ∧
        (p.window.index p.pointer+1024)%(p.window.height*p.window.width) =
          p.window.index (place p.window line.toNat col.toNat) := by
    rw [Panel.storeAll_pointer,List.length_replicate,Window.iterate_eq_iff h.contains]
    rfl
  constructor
  · rintro ⟨hpaint,hplace⟩
    rw [Panel.storeAll_window,hpointer] at hplace
    exact ⟨fun c hc hout => ((hram c).mp (hpaint c hc)).resolve_left hout,hplace.1,hplace.2⟩
  · rintro ⟨hout,hin,hreturn⟩
    refine ⟨fun c hc => (hram c).mpr ?_,?_⟩
    · by_cases hw : p.window.Contains c
      · exact .inl hw
      · exact .inr (hout c hc hw)
    · rw [Panel.storeAll_window]
      exact hpointer.mpr ⟨hin,hreturn⟩

/-- With the pointer in its place before, it comes back to it after whole rounds of the window. -/
theorem reaches_iff_of_place {p : Panel} (h : OnScreen p) {d line col : UInt8}
    (hplace : p.pointer = place p.window line.toNat col.toNat) : Reaches d p line col ↔
      (∀ c, fullWindow.Contains c → ¬ p.window.Contains c → p.ram c = d) ∧
        p.window.height*p.window.width ∣ 1024 := by
  have hreturn : (p.window.index p.pointer+1024)%(p.window.height*p.window.width) = p.window.index p.pointer ↔
      p.window.height*p.window.width ∣ 1024 := by
    rw [← Window.iterate_eq_self_iff h.contains,Window.iterate_eq_iff h.contains,and_iff_right h.contains]
  rw [← hreturn]
  constructor
  · rintro ⟨hout,-,hret⟩
    exact ⟨hout,by rwa [← hplace] at hret⟩
  · rintro ⟨hout,hret⟩
    exact ⟨hout,by rw [← hplace]; exact h.contains,by rw [← hplace]; exact hret⟩

namespace Spi

structure Running (s : Ssd1306 Display) : Prop where
  rst : s.bus.rst = true
  screen : OnScreen s.bus.panel

theorem Running.ready {s : Ssd1306 Display} (h : Running s) : Ready s := ⟨h.rst,h.screen.command⟩

theorem running_of_still {s t : Ssd1306 Display} (h : Still s t) (hs : Running s) : Running t :=
  ⟨h.rst.trans hs.rst,by rw [h.panel]; exact hs.screen⟩

theorem writes_running {s : Ssd1306 Display} (hs : Running s) (bs : List UInt8) :
    Running (writes Display.receive s false bs) := by
  obtain ⟨-,-,hrst,hpanel⟩ := writes_panel hs.rst false bs
  refine ⟨hrst.trans hs.rst,?_⟩
  rw [hpanel]
  exact hs.screen.stores bs

theorem fill_running {s : Ssd1306 Display} (hs : Running s) (d : UInt8) : Running (fill Display.receive s d) := by
  rw [fill_eq_writes]
  exact writes_running hs _

theorem column_running {s : Ssd1306 Display} (hs : Running s) (b : UInt8) :
    Running (advance (write Display.receive s false b)) :=
  let h := writes_running hs [b]
  ⟨h.rst,h.screen⟩

theorem moved_running {s : Ssd1306 Display} (hs : Ready s) {line col : UInt8} (h : line ≤ maxLine ∧ col < maxSeg) :
    Running (setCursor Display.receive s line col) := by
  obtain ⟨⟨hrst,hcommand⟩,-,-,hrow,hcol,hin,-⟩ := moved_inSync hs h
  exact ⟨hrst,hcommand,hrow.le,hcol.le,hin⟩

theorem setCursor_running {s : Ssd1306 Display} (hs : Running s) (line col : UInt8) :
    Running (setCursor Display.receive s line col) := by
  by_cases h : line ≤ maxLine ∧ col < maxSeg
  · exact moved_running hs.ready h
  · rwa [setCursor,if_neg h]

theorem goToNextLine_running {s : Ssd1306 Display} (hs : Running s) : Running (goToNextLine Display.receive s) :=
  setCursor_running (s := {s with lineNum := (s.lineNum+1) &&& maxLine}) ⟨hs.rst,hs.screen⟩ _ _

theorem printChar_running {s t : Ssd1306 Display} {c : UInt8} (h : printChar Display.receive s c = some t)
    (hs : Running s) : Running t := by
  unfold printChar at h
  have hline : Running (if s.cursorPos.toNat+fontSize ≥ maxSeg.toNat ∨ c = newline then
      goToNextLine Display.receive s else s) := by
    split_ifs
    · exact goToNextLine_running hs
    · exact hs
  by_cases hnl : c = newline
  · simp only [hnl, ne_eq, not_true_eq_false, if_false, Option.some.injEq] at h hline
    rwa [← h]
  · simp only [hnl, ne_eq, not_false_eq_true, if_true] at h hline
    obtain ⟨u,hu,hlast⟩ := Option.bind_eq_some_iff.mp h
    have hcolumns : Running u := foldlM_invariant (fun v temp v' hv hrun => ?_) hu hline
    · cases hlast
      exact column_running hcolumns 0x00
    · obtain ⟨row,-,hcol⟩ := Option.bind_eq_some_iff.mp hv
      obtain ⟨b,-,hb⟩ := Option.bind_eq_some_iff.mp hcol
      cases hb
      exact column_running hrun b

theorem string_running {str : List UInt8} {s t : Ssd1306 Display} (h : string Display.receive s str = some t)
    (hs : Running s) : Running t := by
  induction str generalizing s with
  | nil => cases h; exact hs
  | cons c str ih =>
    rw [string] at h
    split_ifs at h
    · cases h; exact hs
    · obtain ⟨u,hu,ht⟩ := Option.bind_eq_some_iff.mp h
      exact ih ht (printChar_running hu hs)

theorem exec_running {s t : Ssd1306 Display} {op : Op} (h : exec Display.receive s op = some t) (hs : Running s) :
    Running t := by
  cases op with
  | setCursor line col => cases h; exact setCursor_running hs line col
  | goToNextLine => cases h; exact goToNextLine_running hs
  | printChar c => exact printChar_running h hs
  | string str => exact string_running h hs
  | invertDisplay b => cases h; exact running_of_still (invertDisplay_still hs.ready b) hs
  | setBrightness v => cases h; exact running_of_still (setBrightness_still hs.ready v) hs
  | startScrollHorizontal b first last =>
    cases h; exact running_of_still (startScrollHorizontal_still hs.ready b first last) hs
  | startScrollVerticalHorizontal b first last area rows =>
    cases h; exact running_of_still (startScrollVerticalHorizontal_still hs.ready b first last area rows) hs
  | deactivateScroll => cases h; exact running_of_still (deactivateScroll_still hs.ready) hs
  | fill data => exact Option.some.inj h ▸ fill_running hs data
  | clearDisplay => exact Option.some.inj h ▸ fill_running (setCursor_running hs 0 0) 0x00
  | printLogo =>
    rw [exec,printLogo_eq_writes] at h
    exact Option.some.inj h ▸ writes_running (setCursor_running hs 0 0) etxLogo

theorem run_running {ops : List Op} {s t : Ssd1306 Display} (h : run (exec Display.receive) s ops = some t)
    (hs : Running s) : Running t := run_invariant (fun _ _ _ ht hr => exec_running ht hr) h hs

theorem displayInit_running {gpio : Gpio} {s : Ssd1306 Display}
    (h : 0 ≤ (displayInit Display.receive gpio s).2) : Running (displayInit Display.receive gpio s).1 := by
  obtain ⟨t,ht,heq⟩ := displayInit_ready h
  rw [heq,clearDisplay]
  exact fill_running (moved_running ht (by decide)) 0x00

/-- A fill leaves the counters. -/
theorem fill_painted_iff {s : Ssd1306 Display} (hs : Running s) (d : UInt8) :
    Painted d (fill Display.receive s d).bus.panel (fill Display.receive s d).lineNum
        (fill Display.receive s d).cursorPos ↔ Reaches d s.bus.panel s.lineNum s.cursorPos := by
  rw [fill_eq_writes]
  obtain ⟨hline,hcursor,-,hpanel⟩ := writes_panel hs.rst false (List.replicate total d)
  rw [hline,hcursor,hpanel]
  exact stores_painted_iff hs.screen d s.lineNum s.cursorPos

/-- A cursor move after the initialisation, on the cleared screen. -/
theorem moved_after_init {gpio : Gpio} {s : Ssd1306 Display} (h : 0 ≤ (displayInit Display.receive gpio s).2)
    {line col : UInt8} (hrange : line ≤ maxLine ∧ col < maxSeg) :
    (setCursor Display.receive (displayInit Display.receive gpio s).1 line col).bus.panel.window =
        ⟨line.toNat,7,col.toNat,127⟩ ∧
      ∀ c, fullWindow.Contains c →
        (setCursor Display.receive (displayInit Display.receive gpio s).1 line col).bus.panel.ram c = 0 := by
  obtain ⟨t,ht,heq⟩ := displayInit_ready h
  rw [setCursor_panel (displayInit_running h).ready hrange]
  refine ⟨rfl,fun c hc => ?_⟩
  rw [moved_ram,heq]
  exact (clearDisplay_cleared ht).ram c hc

end Spi

namespace I2c

theorem fill_painted_iff {t₀ t : Ssd1306 Panel} (hscreen : OnScreen t₀.bus) {ops : List Op}
    (h : run (exec message) (displayInit message t₀) ops = some t) (d : UInt8) :
    Painted d (fill message t d).bus (fill message t d).lineNum (fill message t d).cursorPos ↔
      Reaches d t.bus t.lineNum t.cursorPos := by
  obtain ⟨u,hstill,hstarted⟩ := initCommands_twin hscreen.command
  have hinit : Same _ (Spi.fill Spi.Display.receive u 0x00) (displayInit message t₀) :=
    fill_same carries_panel hstarted 0x00
  have hrun := run_rel (fun _ _ op hs => exec_same carries_panel hs op) hinit ops
  rw [h] at hrun
  obtain ⟨s,hs,hsame⟩ := exists_of_rel_right hrun
  have hrunning : Spi.Running s :=
    Spi.run_running hs (Spi.fill_running (Spi.running_of_still hstill ⟨rfl,hscreen⟩) 0x00)
  obtain ⟨hline,hcursor,-,hpanel⟩ := fill_same carries_panel hsame d
  obtain ⟨hline',hcursor',-,hpanel'⟩ := hsame
  rw [← hline,← hcursor,← hpanel,← hline',← hcursor',← hpanel']
  exact Spi.fill_painted_iff hrunning d

end I2c

/-- After any calls on an initialised display, a fill paints the whole screen and leaves the pointer in
the place of the cursor exactly when the window of before reaches that far. -/
theorem fill_paints_iff (d : UInt8) :
    (∀ gpio s₀ ops s, 0 ≤ (Spi.displayInit Spi.Display.receive gpio s₀).2 →
      run (Spi.exec Spi.Display.receive) (Spi.displayInit Spi.Display.receive gpio s₀).1 ops = some s →
      (Painted d (Spi.fill Spi.Display.receive s d).bus.panel (Spi.fill Spi.Display.receive s d).lineNum
        (Spi.fill Spi.Display.receive s d).cursorPos ↔ Reaches d s.bus.panel s.lineNum s.cursorPos)) ∧
    (∀ (t₀ : I2c.Ssd1306 Panel) ops t, OnScreen t₀.bus →
      run (I2c.exec I2c.message) (I2c.displayInit I2c.message t₀) ops = some t →
      (Painted d (I2c.fill I2c.message t d).bus (I2c.fill I2c.message t d).lineNum
        (I2c.fill I2c.message t d).cursorPos ↔ Reaches d t.bus t.lineNum t.cursorPos)) := by
  constructor
  · intro gpio s₀ ops s hinit hrun
    exact Spi.fill_painted_iff (Spi.run_running hrun (Spi.displayInit_running hinit)) d
  · intro t₀ ops t hscreen hrun
    exact I2c.fill_painted_iff hscreen hrun d

/-- The cursor is moved into the last line of the cleared screen: a fill with zeros goes round the
window of 64 cells, and the rest of the screen is empty already. -/
theorem fill_paints_empty_line : ∃ s,
    run (Spi.exec Spi.Display.receive)
      (Spi.displayInit Spi.Display.receive ⟨fun _ => true,fun _ => 0⟩
        ⟨3,200,⟨⟨fun _ => 0xFF,⟨2,5,60,70⟩,(4,66),some (0x21,[9]),[]⟩,false,true⟩⟩).1 [.setCursor 7 64] = some s ∧
    Painted 0 (Spi.fill Spi.Display.receive s 0).bus.panel (Spi.fill Spi.Display.receive s 0).lineNum
      (Spi.fill Spi.Display.receive s 0).cursorPos := by
  let s₀ : Spi.Ssd1306 Spi.Display := ⟨3,200,⟨⟨fun _ => 0xFF,⟨2,5,60,70⟩,(4,66),some (0x21,[9]),[]⟩,false,true⟩⟩
  have hinit : 0 ≤ (Spi.displayInit Spi.Display.receive ⟨fun _ => true,fun _ => 0⟩ s₀).2 :=
    (Spi.displayInit_iff _ _ _).mpr (by decide)
  have hrange : (7 : UInt8) ≤ Spi.maxLine ∧ (64 : UInt8) < Spi.maxSeg := by decide
  obtain ⟨hwindow,hempty⟩ := Spi.moved_after_init hinit hrange
  have hsync := Spi.moved_inSync (Spi.displayInit_running hinit).ready hrange
  have hcol : (Spi.setCursor Spi.Display.receive (Spi.displayInit Spi.Display.receive ⟨fun _ => true,fun _ => 0⟩ s₀).1
      7 64).cursorPos.toNat < 128 := by
    have hcursor : (Spi.setCursor Spi.Display.receive
        (Spi.displayInit Spi.Display.receive ⟨fun _ => true,fun _ => 0⟩ s₀).1 7 64).cursorPos = 64 := by
      rw [Spi.setCursor,if_pos hrange]; rfl
    rw [hcursor]
    decide
  have hrun : run (Spi.exec Spi.Display.receive)
      (Spi.displayInit Spi.Display.receive ⟨fun _ => true,fun _ => 0⟩ s₀).1 [.setCursor 7 64] = some _ := rfl
  refine ⟨_,hrun,?_⟩
  rw [(fill_paints_iff 0).1 _ s₀ _ _ hinit hrun]
  rw [reaches_iff_of_place (Spi.moved_running (Spi.displayInit_running hinit).ready hrange).screen]
  refine ⟨fun c hc _ => hempty c hc,?_⟩
  · rw [hwindow]
    decide
  · rw [place,if_pos hcol]
    exact hsync.pointer hcol

/-- The same cursor move, and a fill with another byte: the first cell stays empty. -/
theorem fill_keeps_first_line : ¬ ∀ (d : UInt8) gpio s₀ ops s,
    0 ≤ (Spi.displayInit Spi.Display.receive gpio s₀).2 →
    run (Spi.exec Spi.Display.receive) (Spi.displayInit Spi.Display.receive gpio s₀).1 ops = some s →
    Painted d (Spi.fill Spi.Display.receive s d).bus.panel (Spi.fill Spi.Display.receive s d).lineNum
      (Spi.fill Spi.Display.receive s d).cursorPos := by
  intro hall
  let s₀ : Spi.Ssd1306 Spi.Display := ⟨0,0,⟨⟨fun _ => 0,fullWindow,(0,0),none,[]⟩,true,true⟩⟩
  have hinit : 0 ≤ (Spi.displayInit Spi.Display.receive ⟨fun _ => true,fun _ => 0⟩ s₀).2 :=
    (Spi.displayInit_iff _ _ _).mpr (by decide)
  have hrange : (7 : UInt8) ≤ Spi.maxLine ∧ (0 : UInt8) < Spi.maxSeg := by decide
  obtain ⟨hwindow,hempty⟩ := Spi.moved_after_init hinit hrange
  have hpainted := hall 0xFF _ s₀ [.setCursor 7 0] _ hinit rfl
  have hreaches := (Spi.fill_painted_iff (Spi.moved_running (Spi.displayInit_running hinit).ready hrange) 0xFF).mp
    hpainted
  have hcell := hreaches.outside (0,0) fullWindow_origin (by
    rw [hwindow]
    exact fun hin => absurd hin.rowStart (by decide))
  rw [hempty _ fullWindow_origin] at hcell
  exact absurd hcell (by decide)

end ExampleKernel.Oled
