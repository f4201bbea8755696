import ExampleKernel.Foundation.Transition
import ExampleKernel.Oled.Wiring

/-! The software cursor of the SPI driver against the address pointer of the controller, over every
sequence of calls after `ETX_SSD1306_DisplayInit`. -/
namespace ExampleKernel.Oled.Spi
open ExampleKernel.Foundation

/-- The counters are in range, the window ends at the lower right corner, and while the line is not
full the address pointer is where the counters say. -/
structure InSync (s : Ssd1306 Display) : Prop where
  ready : Ready s
  line : s.lineNum.toNat ≤ 7
  cursor : s.cursorPos.toNat ≤ 128
  rowEnd : s.bus.panel.window.rowEnd = 7
  colEnd : s.bus.panel.window.colEnd = 127
  contains : s.bus.panel.window.Contains s.bus.panel.pointer
  pointer : s.cursorPos.toNat < 128 → s.bus.panel.pointer = (s.lineNum.toNat,s.cursorPos.toNat)

/-- The characters of the font and the newline. -/
def Printable (c : UInt8) : Prop := c = newline ∨ (0x20 ≤ c ∧ c ≤ 0x7E)

/-- The font columns of a character and the empty column after them. -/
def glyph (c : UInt8) : List UInt8 := (ssd1306Font[(c-0x20).toNat]?).getD [] ++ [0x00]

/-- The bytes of `c` land side by side in the line that the cursor is on when it is printed. -/
def Lands (s t : Ssd1306 Display) (c : UInt8) : Prop :=
  (glyph c).length = 6 ∧ ∃ col, col+6 ≤ 128 ∧
    t.bus.panel.stored = s.bus.panel.stored ++ Panel.cells t.lineNum.toNat col (glyph c)

theorem still_inSync {s t : Ssd1306 Display} (h : Still s t) (hs : InSync s) : InSync t := by
  obtain ⟨hline,hcursor,hrst,hpanel⟩ := h
  obtain ⟨⟨hup,hcommand⟩,hl,hc,hre,hce,hcontains,hpointer⟩ := hs
  exact ⟨⟨hrst.trans hup,by rw [hpanel,hcommand]⟩,by rwa [hline],by rwa [hcursor],by rwa [hpanel],
    by rwa [hpanel],by rwa [hpanel],by rwa [hpanel,hline,hcursor]⟩

/-- A cursor move in range puts both in step, whatever they were before. -/
theorem moved_inSync {s : Ssd1306 Display} (hs : Ready s) {line col : UInt8}
    (h : line ≤ maxLine ∧ col < maxSeg) : InSync (setCursor Display.receive s line col) := by
  have hpanel := setCursor_panel hs h
  have hl : line.toNat ≤ 7 := UInt8.le_iff_toNat_le.mp h.1
  have hc : col.toNat < 128 := UInt8.lt_iff_toNat_lt.mp h.2
  have hline : (setCursor Display.receive s line col).lineNum = line := by rw [setCursor,if_pos h]; rfl
  have hcursor : (setCursor Display.receive s line col).cursorPos = col := by rw [setCursor,if_pos h]; rfl
  have hrst : (setCursor Display.receive s line col).bus.rst = s.bus.rst := by
    rw [setCursor,if_pos h]
    simp only [write_rst]
  refine ⟨⟨hrst.trans hs.rst,?_⟩,by rwa [hline],by rw [hcursor]; exact hc.le,?_,?_,?_,fun _ => ?_⟩
  · rw [hpanel]; exact hs.command
  · rw [hpanel]; rfl
  · rw [hpanel]; rfl
  · rw [hpanel]; exact ⟨le_rfl,hl,le_rfl,Nat.le_of_lt_succ hc⟩
  · rw [hpanel,hline,hcursor]; rfl

theorem setCursor_inSync {s : Ssd1306 Display} (hs : InSync s) (line col : UInt8) :
    InSync (setCursor Display.receive s line col) := by
  by_cases h : line ≤ maxLine ∧ col < maxSeg
  · exact moved_inSync hs.ready h
  · rwa [setCursor,if_neg h]

theorem and_maxLine_le (line : UInt8) : line &&& maxLine ≤ maxLine := by
  rw [UInt8.le_iff_toNat_le,UInt8.toNat_and]
  exact Nat.and_le_right

theorem goToNextLine_inSync {s : Ssd1306 Display} (hs : Ready s) :
    InSync (goToNextLine Display.receive s) :=
  moved_inSync (s := {s with lineNum := (s.lineNum+1) &&& maxLine}) ⟨hs.rst,hs.command⟩
    ⟨and_maxLine_le _,by decide⟩

theorem goToNextLine_cursorPos (s : Ssd1306 Display) : (goToNextLine Display.receive s).cursorPos = 0 := by
  rw [goToNextLine,setCursor,if_pos ⟨and_maxLine_le _,by decide⟩]
  rfl

/-- A full screen of data leads the pointer back to the origin, where the counters still are. -/
theorem screen_inSync {s : Ssd1306 Display} (hs : Ready s) {bs : List UInt8} (hbs : bs.length = total) :
    InSync (writes Display.receive (setCursor Display.receive s 0 0) false bs) := by
  have hrange : (0 : UInt8) ≤ maxLine ∧ (0 : UInt8) < maxSeg := by decide
  have hsync := moved_inSync hs hrange
  have hwindow : (setCursor Display.receive s 0 0).bus.panel.window = fullWindow := by
    rw [setCursor_panel hs hrange]
    rfl
  obtain ⟨hline,hcursor,hrst,hpanel⟩ := writes_panel hsync.ready.rst false bs
  rw [Panel.take] at hpanel
  have hpointer : (bs.foldl Panel.store (setCursor Display.receive s 0 0).bus.panel).pointer =
      (setCursor Display.receive s 0 0).bus.panel.pointer := by
    have harea : bs.length = (setCursor Display.receive s 0 0).bus.panel.window.height *
        (setCursor Display.receive s 0 0).bus.panel.window.width := by
      rw [hwindow,hbs]
      rfl
    rw [Panel.storeAll_pointer,harea,Window.iterate_area hsync.contains]
  obtain ⟨⟨hup,hcommand⟩,hl,hc,hre,hce,hcontains,hptr⟩ := hsync
  refine ⟨⟨hrst.trans hup,?_⟩,by rwa [hline],by rwa [hcursor],?_,?_,?_,?_⟩
  · rwa [hpanel,Panel.storeAll_command]
  · rwa [hpanel,Panel.storeAll_window]
  · rwa [hpanel,Panel.storeAll_window]
  · rwa [hpanel,Panel.storeAll_window,hpointer]
  · rwa [hpanel,hpointer,hline,hcursor]

/-- Every printable character but the newline has a row in the font. -/
theorem font_row {c : UInt8} (hc : Printable c) (hne : c ≠ newline) :
    ∃ row, ssd1306Font[(c-0x20).toNat]? = some row ∧ row.length = fontSize ∧ glyph c = row ++ [0x00] := by
  obtain hnl | ⟨hlo,hhi⟩ := hc
  · contradiction
  · have hlt : (c-0x20).toNat < ssd1306Font.length := by
      have hhi' : c.toNat ≤ 126 := UInt8.le_iff_toNat_le.mp hhi
      have hsub : (c-0x20).toNat = c.toNat-32 := UInt8.toNat_sub_of_le _ _ hlo
      rw [hsub,ssd1306Font_length]
      omega
    have hrow := List.getElem?_eq_getElem hlt
    exact ⟨_,hrow,length_of_mem_ssd1306Font _ (List.getElem_mem hlt),by rw [glyph,hrow]; rfl⟩

/-- Columns that fit into the rest of the line keep both in step, and land side by side. -/
theorem columns_inSync {s : Ssd1306 Display} (hs : InSync s) {bs : List UInt8} (hne : bs ≠ [])
    (hfit : s.cursorPos.toNat+bs.length ≤ 128) : InSync (columns Display.receive s bs) ∧
    (columns Display.receive s bs).bus.panel.stored =
      s.bus.panel.stored ++ Panel.cells (columns Display.receive s bs).lineNum.toNat s.cursorPos.toNat bs := by
  obtain ⟨⟨hup,hcommand⟩,hl,hc,hre,hce,hcontains,hptr⟩ := hs
  have hpos : 0 < bs.length := List.length_pos_iff.mpr hne
  have hpointer := hptr (by omega)
  obtain ⟨hline,hcursor,hrst,hpanel⟩ := columns_panel hup bs (by omega)
  have hall := Panel.storeAll_pointer s.bus.panel bs
  constructor
  · refine ⟨⟨hrst.trans hup,?_⟩,by rwa [hline],by rw [hcursor]; exact hfit,?_,?_,?_,fun hlt => ?_⟩
    · rwa [hpanel,Panel.storeAll_command]
    · rwa [hpanel,Panel.storeAll_window]
    · rwa [hpanel,Panel.storeAll_window]
    · rw [hpanel,Panel.storeAll_window,hall]
      exact Window.iterate_contains hcontains _
    · rw [hcursor] at hlt
      rw [hpanel,hall,Window.iterate_row (by rw [hpointer,hce]; exact Nat.le_of_lt_succ hlt),hpointer,hline,hcursor]
  · rw [hpanel,hline,Panel.storeAll_stored (by rw [hpointer,hce]; exact hfit),hpointer]

theorem goToNextLine_stored {s : Ssd1306 Display} (hs : Ready s) :
    (goToNextLine Display.receive s).bus.panel.stored = s.bus.panel.stored := by
  have hrange : (s.lineNum+1) &&& maxLine ≤ maxLine ∧ (0 : UInt8) < maxSeg := ⟨and_maxLine_le _,by decide⟩
  have hstored := congrArg Panel.stored
    (setCursor_panel (s := {s with lineNum := (s.lineNum+1) &&& maxLine}) ⟨hs.rst,hs.command⟩ hrange)
  exact hstored

theorem printChar_lands {s : Ssd1306 Display} (hs : InSync s) {c : UInt8} (hc : Printable c) (hne : c ≠ newline) :
    ∃ t, printChar Display.receive s c = some t ∧ InSync t ∧ Lands s t c := by
  obtain ⟨row,hrow,hlen,hglyph⟩ := font_row hc hne
  have hlen' : (row ++ [0x00]).length = 6 := by rw [List.length_append,hlen]; rfl
  have hcons : row ++ [0x00] ≠ [] := List.append_ne_nil_of_right_ne_nil _ (List.cons_ne_nil _ _)
  refine ⟨_,printChar_eq_columns Display.receive s hne hrow hlen,?_⟩
  unfold Lands
  rw [hglyph]
  split_ifs with hfull
  · have hzero := goToNextLine_cursorPos s
    obtain ⟨hsync,hstored⟩ := columns_inSync (goToNextLine_inSync hs.ready) hcons
      (by rw [hzero,hlen']; decide)
    rw [goToNextLine_stored hs.ready] at hstored
    refine ⟨hsync,hlen',_,?_,hstored⟩
    rw [hzero]
    decide
  · have hfit : s.cursorPos.toNat+6 ≤ 128 := by
      have hmax : maxSeg.toNat = 128 := rfl
      rw [hmax,fontSize] at hfull
      omega
    obtain ⟨hsync,hstored⟩ := columns_inSync hs hcons (by rw [hlen']; exact hfit)
    exact ⟨hsync,hlen',_,hfit,hstored⟩

theorem printChar_inSync {s : Ssd1306 Display} (hs : InSync s) {c : UInt8} (hc : Printable c) :
    ∃ t, printChar Display.receive s c = some t ∧ InSync t := by
  by_cases hnl : c = newline
  · subst hnl
    exact ⟨_,printChar_newline Display.receive s,goToNextLine_inSync hs.ready⟩
  · obtain ⟨t,ht,hsync,-⟩ := printChar_lands hs hc hnl
    exact ⟨t,ht,hsync⟩

theorem ne_zero_of_printable {c : UInt8} (hc : Printable c) : c ≠ 0 := by
  rintro rfl
  obtain h | h := hc
  · exact absurd h (by decide)
  · exact absurd h.1 (by decide)

section Total
variable {β : Type} (send : β → Wire → β) (s : Ssd1306 β)

/-- On any bus the characters of the font can be printed. -/
theorem printChar_total {c : UInt8} (hc : Printable c) : ∃ t, printChar send s c = some t := by
  by_cases hnl : c = newline
  · subst hnl; exact ⟨_,printChar_newline send s⟩
  · obtain ⟨row,hrow,hlen,-⟩ := font_row hc hnl
    exact ⟨_,printChar_eq_columns send s hnl hrow hlen⟩

theorem string_total {str : List UInt8} (hstr : ∀ c ∈ str, Printable c) : ∃ t, string send s str = some t := by
  induction str generalizing s with
  | nil => exact ⟨s,rfl⟩
  | cons c str ih =>
    have hc := hstr c List.mem_cons_self
    obtain ⟨u,hu⟩ := printChar_total send s hc
    rw [string,if_neg (ne_zero_of_printable hc),hu]
    exact ih u fun d hd => hstr d (List.mem_cons_of_mem _ hd)

end Total

/-- A string is printed character by character. -/
theorem string_append {s : Ssd1306 Display} (hs : InSync s) {pre : List UInt8} (hpre : ∀ c ∈ pre, Printable c)
    (post : List UInt8) : ∃ t, string Display.receive s pre = some t ∧ InSync t ∧
      string Display.receive s (pre ++ post) = string Display.receive t post := by
  induction pre generalizing s with
  | nil => exact ⟨s,rfl,hs,rfl⟩
  | cons c pre ih =>
    have hc := hpre c List.mem_cons_self
    obtain ⟨u,hu,husync⟩ := printChar_inSync hs hc
    obtain ⟨t,ht,htsync,hrest⟩ := ih husync fun d hd => hpre d (List.mem_cons_of_mem _ hd)
    refine ⟨t,?_,htsync,?_⟩
    · rw [string,if_neg (ne_zero_of_printable hc),hu]
      exact ht
    · rw [List.cons_append,string,if_neg (ne_zero_of_printable hc),hu]
      exact hrest

/-- The calls that keep the cursor, with characters of the font. -/
def Op.Tracked : Op → Prop
  | .printChar c => Printable c
  | .string str => ∀ c ∈ str, Printable c
  | .fill _ => False
  | _ => True

theorem exec_inSync {s : Ssd1306 Display} (hs : InSync s) {op : Op} (hop : op.Tracked) :
    ∃ t, exec Display.receive s op = some t ∧ InSync t := by
  cases op with
  | setCursor line col => exact ⟨_,rfl,setCursor_inSync hs line col⟩
  | goToNextLine => exact ⟨_,rfl,goToNextLine_inSync hs.ready⟩
  | printChar c => exact printChar_inSync hs hop
  | string str =>
    obtain ⟨t,ht,hsync,-⟩ := string_append hs hop []
    exact ⟨t,ht,hsync⟩
  | invertDisplay b => exact ⟨_,rfl,still_inSync (invertDisplay_still hs.ready b) hs⟩
  | setBrightness v => exact ⟨_,rfl,still_inSync (setBrightness_still hs.ready v) hs⟩
  | startScrollHorizontal b first last =>
    exact ⟨_,rfl,still_inSync (startScrollHorizontal_still hs.ready b first last) hs⟩
  | startScrollVerticalHorizontal b first last area rows =>
    exact ⟨_,rfl,still_inSync (startScrollVerticalHorizontal_still hs.ready b first last area rows) hs⟩
  | deactivateScroll => exact ⟨_,rfl,still_inSync (deactivateScroll_still hs.ready) hs⟩
  | fill data => exact hop.elim
  | clearDisplay =>
    refine ⟨_,rfl,?_⟩
    rw [clearDisplay,fill_eq_writes]
    exact screen_inSync hs.ready List.length_replicate
  | printLogo => exact ⟨_,printLogo_eq_writes _ s,screen_inSync hs.ready etxLogo_length⟩

theorem run_inSync {ops : List Op} {s : Ssd1306 Display} (hs : InSync s) (hops : ∀ op ∈ ops, op.Tracked) :
    ∃ t, run (exec Display.receive) s ops = some t ∧ InSync t := by
  induction ops generalizing s with
  | nil => exact ⟨s,rfl,hs⟩
  | cons op ops ih =>
    obtain ⟨t,ht,hsync⟩ := exec_inSync hs (hops op List.mem_cons_self)
    obtain ⟨u,hu,husync⟩ := ih hsync fun o ho => hops o (List.mem_cons_of_mem _ ho)
    exact ⟨u,run_cons_eq_some.mpr ⟨t,ht,hu⟩,husync⟩

theorem displayInit_inSync {gpio : Gpio} {s : Ssd1306 Display}
    (h : 0 ≤ (displayInit Display.receive gpio s).2) : InSync (displayInit Display.receive gpio s).1 := by
  obtain ⟨t,ht,heq⟩ := displayInit_ready h
  rw [heq,clearDisplay,fill_eq_writes]
  exact screen_inSync ht List.length_replicate

/-- After a successful initialisation, from whatever state, every sequence of calls goes through
with the counters in range and in step with the address pointer, and every character of a text lands
in six columns of its line. -/
theorem cursor_never_drifts (gpio : Gpio) (s₀ : Ssd1306 Display) (ops : List Op)
    (hinit : 0 ≤ (displayInit Display.receive gpio s₀).2) (hops : ∀ op ∈ ops, op.Tracked) :
    ∃ s, run (exec Display.receive) (displayInit Display.receive gpio s₀).1 ops = some s ∧
      s.lineNum.toNat ≤ 7 ∧ s.cursorPos.toNat ≤ 128 ∧
      (s.cursorPos.toNat < 128 → s.bus.panel.pointer = (s.lineNum.toNat,s.cursorPos.toNat)) ∧
      ∀ pre c post, (∀ d ∈ pre ++ c::post, Printable d) → c ≠ newline → ∃ t u,
        string Display.receive s pre = some t ∧ printChar Display.receive t c = some u ∧
        string Display.receive s (pre ++ c::post) = string Display.receive u post ∧ Lands t u c := by
  obtain ⟨s,hs,hsync⟩ := run_inSync (displayInit_inSync hinit) hops
  refine ⟨s,hs,hsync.line,hsync.cursor,hsync.pointer,fun pre c post hall hne => ?_⟩
  have hc := hall c (List.mem_append_right _ List.mem_cons_self)
  obtain ⟨t,ht,htsync,hrest⟩ := string_append hsync (fun d hd => hall d (List.mem_append_left _ hd)) (c::post)
  obtain ⟨u,hu,-,hlands⟩ := printChar_lands htsync hc hne
  refine ⟨t,u,ht,hu,hrest.trans ?_,hlands⟩
  rw [string,if_neg (ne_zero_of_printable hc),hu]
  rfl

/-- A controller left with a small window and half a command by an earlier run. -/
theorem cursor_never_drifts_warm_start : ∃ s, run (exec Display.receive)
    (displayInit Display.receive ⟨fun _ => true,fun _ => 0⟩
      ⟨3,200,⟨⟨fun _ => 0xFF,⟨2,5,60,70⟩,(4,66),some (0x21,[9]),[]⟩,false,true⟩⟩).1
    [.setCursor 7 122,.string [0x41,0x42,newline],.setBrightness 0x21,.printLogo,.setCursor 8 0,
      .printChar 0x7E] = some s ∧
    s.lineNum.toNat ≤ 7 ∧ s.cursorPos.toNat ≤ 128 := by
  obtain ⟨s,hs,hline,hcursor,-⟩ := cursor_never_drifts ⟨fun _ => true,fun _ => 0⟩
    ⟨3,200,⟨⟨fun _ => 0xFF,⟨2,5,60,70⟩,(4,66),some (0x21,[9]),[]⟩,false,true⟩⟩
    [.setCursor 7 122,.string [0x41,0x42,newline],.setBrightness 0x21,.printLogo,.setCursor 8 0,
      .printChar 0x7E]
    (by decide) (by simp [Op.Tracked, Printable])
  exact ⟨s,hs,hline,hcursor⟩

end ExampleKernel.Oled.Spi
