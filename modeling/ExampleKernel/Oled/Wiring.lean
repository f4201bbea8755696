import ExampleKernel.Oled.Panel
import ExampleKernel.Oled.Ssd1306

/-! The display module at the end of the wires, and what the functions of the SPI driver do to it. -/
namespace ExampleKernel.Oled.Spi
open ExampleKernel.Foundation

/-- The controller with the levels of its RST and DC lines. -/
structure Display where
  panel : Panel
  rst : Bool
  dc : Bool

namespace Display

def drive (d : Display) (pin value : ℕ) : Display :=
  if pin = rstPin then {d with
    rst := value ≠ 0
    panel := if value = 0 then d.panel.reset else d.panel}
  else if pin = dcPin then {d with dc := value ≠ 0}
  else d

/-- While RST is low the controller takes no byte; DC tells data from commands. -/
def receive (d : Display) : Wire → Display
  | .gpioDirectionOutput pin value => d.drive pin value
  | .gpioSetValue pin value => d.drive pin value
  | .spi b => if d.rst then {d with panel := if d.dc then d.panel.store b else d.panel.receive b} else d
  | .gpioRequest _ | .gpioFree _ => d

end Display

/-- A controller that runs and waits for a command. -/
structure Ready (s : Ssd1306 Display) : Prop where
  rst : s.bus.rst = true
  command : s.bus.panel.command = none

section Generic
variable {β : Type} (send : β → Wire → β) (s : Ssd1306 β) (isCmd : Bool) (b : UInt8)

@[simp] theorem write_cursorPos : (write send s isCmd b).cursorPos = s.cursorPos := rfl

end Generic

section Write
variable {s : Ssd1306 Display} (b : UInt8)

@[simp] theorem write_rst (isCmd : Bool) : (write Display.receive s isCmd b).bus.rst = s.bus.rst := by
  cases h : s.bus.rst <;> simp [write, wire, setDc, Display.receive, Display.drive, rstPin, dcPin, h]

theorem write_panel (h : s.bus.rst = true) (isCmd : Bool) :
    (write Display.receive s isCmd b).bus.panel = Panel.take isCmd s.bus.panel b := by
  cases isCmd <;> simp [write, wire, setDc, Display.receive, Display.drive, rstPin, dcPin, h, Panel.take]

end Write

/-- The window and the pointer after `ETX_SSD1306_SetCursor`. -/
def moved (p : Panel) (line col : ℕ) : Panel := {p with
  window := ⟨line,7,col,127⟩
  pointer := (line,col)}

@[simp] theorem moved_ram (p : Panel) (line col : ℕ) : (moved p line col).ram = p.ram := rfl

theorem setCursor_panel {s : Ssd1306 Display} (hs : Ready s) {line col : UInt8}
    (h : line ≤ maxLine ∧ col < maxSeg) :
    (setCursor Display.receive s line col).bus.panel = moved s.bus.panel line.toNat col.toNat := by
  obtain ⟨hrst,hcommand⟩ := hs
  rw [setCursor,if_pos h]
  simp only [write_panel, write_rst, hrst]
  simp [Panel.take, Panel.receive, Panel.accept, Panel.execute, arity, hcommand, moved, maxSeg, maxLine]

/-- Bytes of one kind one after the other. -/
def writes {β : Type} (send : β → Wire → β) (s : Ssd1306 β) (isCmd : Bool) (bs : List UInt8) : Ssd1306 β :=
  bs.foldl (fun s b => write send s isCmd b) s

theorem writes_panel {s : Ssd1306 Display} (h : s.bus.rst = true) (isCmd : Bool) (bs : List UInt8) :
    (writes Display.receive s isCmd bs).lineNum = s.lineNum ∧
    (writes Display.receive s isCmd bs).cursorPos = s.cursorPos ∧
    (writes Display.receive s isCmd bs).bus.rst = s.bus.rst ∧
    (writes Display.receive s isCmd bs).bus.panel = bs.foldl (Panel.take isCmd) s.bus.panel := by
  induction bs generalizing s with
  | nil => exact ⟨rfl,rfl,rfl,rfl⟩
  | cons b bs ih =>
    obtain ⟨hline,hcursor,hrst,hpanel⟩ :=
      ih (s := write Display.receive s isCmd b) ((write_rst b isCmd).trans h)
    refine ⟨hline,hcursor,hrst.trans (write_rst b isCmd),hpanel.trans ?_⟩
    rw [write_panel b h,List.foldl_cons]

/-- The module is as it was, but for the level of DC. -/
structure Still (s t : Ssd1306 Display) : Prop where
  lineNum : t.lineNum = s.lineNum
  cursorPos : t.cursorPos = s.cursorPos
  rst : t.bus.rst = s.bus.rst
  panel : t.bus.panel = s.bus.panel

/-- Commands that leave the controller as it is leave the module as it is. -/
theorem still_of_receive {s : Ssd1306 Display} (bs : List UInt8) (hrst : s.bus.rst = true)
    (h : bs.foldl Panel.receive s.bus.panel = s.bus.panel) : Still s (writes Display.receive s true bs) := by
  obtain ⟨hline,hcursor,hrst',hpanel⟩ := writes_panel hrst true bs
  exact ⟨hline,hcursor,hrst',hpanel.trans h⟩

theorem invertDisplay_still {s : Ssd1306 Display} (hs : Ready s) (b : Bool) :
    Still s (invertDisplay Display.receive s b) := by
  have h : ∀ op, arity op = 0 ∧ op ≠ 0x21 ∧ op ≠ 0x22 → Still s (write Display.receive s true op) := fun op hop =>
    still_of_receive [op] hs.rst (Panel.receive_complete hs.command [] hop.1.symm hop.2)
  cases b with
  | true => exact h 0xA7 (by decide)
  | false => exact h 0xA6 (by decide)

theorem setBrightness_still {s : Ssd1306 Display} (hs : Ready s) (v : UInt8) :
    Still s (setBrightness Display.receive s v) :=
  still_of_receive [0x81,v] hs.rst (Panel.receive_complete hs.command [v] rfl (by decide))

theorem deactivateScroll_still {s : Ssd1306 Display} (hs : Ready s) :
    Still s (deactivateScroll Display.receive s) :=
  still_of_receive [0x2E] hs.rst (Panel.receive_complete hs.command [] (by decide) (by decide))

theorem startScrollHorizontal_still {s : Ssd1306 Display} (hs : Ready s) (b : Bool) (first last : UInt8) :
    Still s (startScrollHorizontal Display.receive s b first last) := by
  have h : ∀ op, arity op = 6 ∧ op ≠ 0x21 ∧ op ≠ 0x22 →
      Still s (writes Display.receive s true ([op,0,first,0,last,0,0xFF] ++ [0x2F])) := by
    intro op hop
    refine still_of_receive _ hs.rst ?_
    rw [List.foldl_append,Panel.receive_complete hs.command [0,first,0,last,0,0xFF] hop.1.symm hop.2]
    exact Panel.receive_complete hs.command [] (by decide) (by decide)
  cases b with
  | true => exact h 0x27 (by decide)
  | false => exact h 0x26 (by decide)

theorem startScrollVerticalHorizontal_still {s : Ssd1306 Display} (hs : Ready s) (b : Bool)
    (first last area rows : UInt8) :
    Still s (startScrollVerticalHorizontal Display.receive s b first last area rows) := by
  have h : ∀ op, arity op = 5 ∧ op ≠ 0x21 ∧ op ≠ 0x22 → Still s (writes Display.receive s true
      ([0xA3,0,area] ++ [op,0,first,0,last,rows] ++ [0x2F])) := by
    intro op hop
    refine still_of_receive _ hs.rst ?_
    rw [List.foldl_append,List.foldl_append,
      Panel.receive_complete hs.command [0,area] rfl (by decide),
      Panel.receive_complete hs.command [0,first,0,last,rows] hop.1.symm hop.2]
    exact Panel.receive_complete hs.command [] (by decide) (by decide)
  cases b with
  | true => exact h 0x2A (by decide)
  | false => exact h 0x29 (by decide)

/-- Data bytes that the cursor counts. -/
def columns {β : Type} (send : β → Wire → β) (s : Ssd1306 β) (bs : List UInt8) : Ssd1306 β :=
  bs.foldl (fun s b => advance (write send s false b)) s

theorem columns_panel {s : Ssd1306 Display} (h : s.bus.rst = true) (bs : List UInt8)
    (hcursor : s.cursorPos.toNat+bs.length < 256) :
    (columns Display.receive s bs).lineNum = s.lineNum ∧
    (columns Display.receive s bs).cursorPos.toNat = s.cursorPos.toNat+bs.length ∧
    (columns Display.receive s bs).bus.rst = s.bus.rst ∧
    (columns Display.receive s bs).bus.panel = bs.foldl Panel.store s.bus.panel := by
  induction bs generalizing s with
  | nil => exact ⟨rfl,rfl,rfl,rfl⟩
  | cons b bs ih =>
    rw [List.length_cons] at hcursor
    have hnext : (advance (write Display.receive s false b)).cursorPos.toNat = s.cursorPos.toNat+1 := by
      simp only [advance, write_cursorPos, UInt8.toNat_add]
      exact Nat.mod_eq_of_lt (by rw [show (1 : UInt8).toNat = 1 from rfl]; omega)
    obtain ⟨hline,hcur,hrst,hpanel⟩ := ih (s := advance (write Display.receive s false b))
      ((write_rst b false).trans h) (by omega)
    refine ⟨hline,hcur.trans (by rw [hnext,List.length_cons]; omega),hrst.trans (write_rst b false),hpanel.trans ?_⟩
    rw [List.foldl_cons,← Panel.take,← write_panel b h]
    rfl

section Loops
variable {σ α : Type}

theorem foldl_range_eq_replicate (f : σ → α → σ) (a : α) (s : σ) (n : ℕ) :
    (List.range n).foldl (fun s _ => f s a) s = (List.replicate n a).foldl f s := by
  induction n with
  | zero => rfl
  | succ n ih => rw [List.range_succ,List.replicate_succ',List.foldl_append,List.foldl_append,ih]; rfl

/-- A loop that reads a table in order, within its bounds. -/
theorem foldlM_range_eq_take (f : σ → α → σ) (table : List α) (s : σ) {n : ℕ} (h : n ≤ table.length) :
    (List.range n).foldlM (fun s i => table[i]?.map (f s)) s = some ((table.take n).foldl f s) := by
  induction n with
  | zero => rfl
  | succ n ih =>
    have hget : table[n]? = some (table.get ⟨n,h⟩) := List.getElem?_eq_getElem h
    rw [List.range_succ,List.foldlM_append,ih (Nat.le_of_succ_le h),List.take_add_one,hget,List.foldl_append]
    simp [hget]

end Loops

theorem fill_eq_writes {β : Type} (send : β → Wire → β) (s : Ssd1306 β) (data : UInt8) :
    fill send s data = writes send s false (List.replicate total data) :=
  foldl_range_eq_replicate (fun s b => write send s false b) data s total

theorem printLogo_eq_writes {β : Type} (send : β → Wire → β) (s : Ssd1306 β) :
    printLogo send s = some (writes send (setCursor send s 0 0) false etxLogo) := by
  have hlen : etxLogo.length = total := etxLogo_length
  rw [printLogo,foldlM_range_eq_take (fun s b => write send s false b) etxLogo _ hlen.ge,← hlen,
    List.take_length]
  rfl

theorem receive_initCommands {p : Panel} (hp : p.command = none) :
    initCommands.foldl Panel.receive p = p := by
  simp [initCommands, Panel.receive, Panel.accept, Panel.execute, arity, hp, Panel.idle hp]

theorem range_fontSize_foldlM {σ : Type} (f : σ → UInt8 → σ) {row : List UInt8} (h : row.length = fontSize)
    (s : σ) : (List.range fontSize).foldlM (fun s temp => row[temp]?.map (f s)) s = some (row.foldl f s) := by
  rw [← h,foldlM_range_eq_take f row s le_rfl,List.take_length]

/-- `ETX_SSD1306_PrintChar` of a character of the font. -/
theorem printChar_eq_columns {β : Type} (send : β → Wire → β) (s : Ssd1306 β) {c : UInt8} {row : List UInt8}
    (hc : c ≠ newline) (hrow : ssd1306Font[(c-0x20).toNat]? = some row) (hlen : row.length = fontSize) :
    printChar send s c = some (columns send
      (if s.cursorPos.toNat+fontSize ≥ maxSeg.toNat then goToNextLine send s else s) (row ++ [0x00])) := by
  unfold printChar
  simp only [hc, hrow, or_false, ne_eq, not_false_eq_true, if_true]
  have hloop := range_fontSize_foldlM (fun s b => advance (write send s false b)) hlen
  simp only [Option.map_eq_bind, Function.comp_def] at hloop
  simp only [Option.bind_eq_bind, Option.bind_some, pure, hloop]
  rw [columns,List.foldl_append]
  rfl

theorem printChar_newline {β : Type} (send : β → Wire → β) (s : Ssd1306 β) :
    printChar send s newline = some (goToNextLine send s) := by
  simp [printChar]

/-- Up to the clearing, `ETX_SSD1306_DisplayInit` resets the controller and leaves it ready. -/
theorem displayInit_ready {gpio : Gpio} {s : Ssd1306 Display}
    (h : 0 ≤ (displayInit Display.receive gpio s).2) : ∃ t, Ready t ∧
      (displayInit Display.receive gpio s).1 = clearDisplay Display.receive t := by
  by_cases hret : 0 ≤ (resetDcInit Display.receive gpio s).2
  · let u := setRst Display.receive (setRst Display.receive (resetDcInit Display.receive gpio s).1 0) 1
    have hrst : u.bus.rst = true := by simp [u, setRst, wire, Display.receive, Display.drive]
    have hcommand : u.bus.panel.command = none := by
      simp [u, setRst, wire, Display.receive, Display.drive, Panel.reset]
    have hstill : Still u (writes Display.receive u true initCommands) :=
      still_of_receive _ hrst (receive_initCommands hcommand)
    refine ⟨_,⟨hstill.rst.trans hrst,by rw [hstill.panel,hcommand]⟩,?_⟩
    simp only [displayInit, if_pos hret]
    rw [writes]
  · simp only [displayInit, if_neg hret] at h
    exact (hret h).elim

end ExampleKernel.Oled.Spi
