import ExampleKernel.Oled.BringUp

/-! What `ETX_SSD1306_String` and `SSD1306_String` show, against a layout that knows nothing of windows
and pointers. -/
namespace ExampleKernel.Oled
open ExampleKernel.Foundation

theorem Panel.storeAll_ram {p : Panel} {bs : List UInt8} (h : p.pointer.2+bs.length ≤ p.window.colEnd+1) :
    (bs.foldl Panel.store p).ram = draw p.ram p.pointer bs := by
  induction bs generalizing p with
  | nil => exact (draw_nil _ _).symm
  | cons b bs ih =>
    rw [List.foldl_cons,← Prod.mk.eta (p := p.pointer),draw_cons]
    cases bs with
    | nil => exact (draw_nil _ _).symm
    | cons b' bs =>
      have hnext : p.window.next p.pointer = (p.pointer.1,p.pointer.2+1) :=
        if_neg (by simp only [List.length_cons] at h; omega)
      rw [ih (by simp only [Panel.store_pointer, hnext, Panel.store_window, List.length_cons] at h ⊢; omega),
        Panel.store_pointer,hnext]
      rfl

/-- A screen of 8 lines of 128 columns, with the place of the next character. -/
structure Layout where
  ram : ℕ × ℕ → UInt8
  line : ℕ
  col : ℕ

namespace Layout

def newline (L : Layout) : Layout := {L with line := (L.line+1)%8, col := 0}

/-- The cell of a character is six columns wide; where it does not fit it goes to the next line. -/
def char (L : Layout) (c : UInt8) : Layout :=
  if c = Spi.newline then L.newline
  else
    let L := if L.col+6 > 128 then L.newline else L
    {L with ram := draw L.ram (L.line,L.col) (Spi.glyph c), col := L.col+6}

def text (L : Layout) (str : List UInt8) : Layout := str.foldl char L

end Layout

/-- Both counters are in range, the address pointer is where they say, and the window contains it and
ends at the lower right corner. -/
structure Tracks (p : Panel) (lineNum cursorPos : UInt8) : Prop where
  command : p.command = none
  line : lineNum.toNat ≤ 7
  cursor : cursorPos.toNat ≤ 127
  rowEnd : p.window.rowEnd = 7
  colEnd : p.window.colEnd = 127
  rowStart : p.window.rowStart ≤ lineNum.toNat
  colStart : p.window.colStart ≤ cursorPos.toNat
  pointer : p.pointer = (lineNum.toNat,cursorPos.toNat)

/-- What a driver and its panel show. -/
def shown (p : Panel) (lineNum cursorPos : UInt8) : Layout := ⟨p.ram,lineNum.toNat,cursorPos.toNat⟩

namespace Spi

theorem inSync_of_tracks {s : Ssd1306 Display} (hrst : s.bus.rst = true)
    (h : Tracks s.bus.panel s.lineNum s.cursorPos) : InSync s := by
  obtain ⟨hcommand,hl,hc,hre,hce,hrs,hcs,hp⟩ := h
  refine ⟨⟨hrst,hcommand⟩,hl,by omega,hre,hce,?_,fun _ => hp⟩
  rw [hp]
  exact ⟨hrs,by rwa [hre],hcs,by rwa [hce]⟩

def view (s : Ssd1306 Display) : Layout := shown s.bus.panel s.lineNum s.cursorPos

theorem toNat_nextLine (line : UInt8) : ((line+1) &&& maxLine).toNat = (line.toNat+1)%8 := by
  rw [UInt8.toNat_and,UInt8.toNat_add]
  have hmask : ∀ n, n &&& 7 = n%8 := fun n => Nat.and_two_pow_sub_one_eq_mod n 3
  rw [show maxLine.toNat = 7 from rfl,hmask,show (1 : UInt8).toNat = 1 from rfl]
  omega

theorem goToNextLine_view {s : Ssd1306 Display} (hs : InSync s) :
    view (goToNextLine Display.receive s) = (view s).newline := by
  have hrange : (s.lineNum+1) &&& maxLine ≤ maxLine ∧ (0 : UInt8) < maxSeg := ⟨and_maxLine_le _,by decide⟩
  have hpanel := setCursor_panel (s := {s with lineNum := (s.lineNum+1) &&& maxLine})
    ⟨hs.ready.rst,hs.ready.command⟩ hrange
  have hline : (goToNextLine Display.receive s).lineNum = (s.lineNum+1) &&& maxLine := by
    rw [goToNextLine,setCursor,if_pos hrange]; rfl
  simp only [view, shown, Layout.newline, hline, toNat_nextLine, goToNextLine_cursorPos]
  congr 1
  rw [goToNextLine,hpanel]
  rfl

theorem columns_view {s : Ssd1306 Display} (hs : InSync s) {bs : List UInt8} (hne : bs ≠ [])
    (hfit : s.cursorPos.toNat+bs.length ≤ 128) : view (columns Display.receive s bs) =
      ⟨draw (view s).ram ((view s).line,(view s).col) bs,(view s).line,(view s).col+bs.length⟩ := by
  have hpos : 0 < bs.length := List.length_pos_iff.mpr hne
  have hpointer := hs.pointer (by omega)
  obtain ⟨hline,hcursor,-,hpanel⟩ := columns_panel hs.ready.rst bs (by omega)
  have hram : (bs.foldl Panel.store s.bus.panel).ram = draw s.bus.panel.ram s.bus.panel.pointer bs :=
    Panel.storeAll_ram (by rw [hpointer,hs.colEnd]; exact hfit)
  simp only [view, shown, hline, hcursor, hpanel, hram, hpointer]

/-- A character is shown where the layout has it. -/
theorem printChar_view {s : Ssd1306 Display} (hs : InSync s) {c : UInt8} (hc : Printable c) :
    ∃ t, printChar Display.receive s c = some t ∧ InSync t ∧ view t = (view s).char c := by
  by_cases hnl : c = newline
  · subst hnl
    exact ⟨_,printChar_newline Display.receive s,goToNextLine_inSync hs.ready,
      (goToNextLine_view hs).trans (if_pos rfl).symm⟩
  · obtain ⟨row,hrow,hlen,hglyph⟩ := font_row hc hnl
    have hlen' : (row ++ [0x00]).length = 6 := by rw [List.length_append,hlen]; rfl
    have hcons : row ++ [0x00] ≠ [] := List.append_ne_nil_of_right_ne_nil _ (List.cons_ne_nil _ _)
    have hmax : maxSeg.toNat = 128 := rfl
    refine ⟨_,printChar_eq_columns Display.receive s hnl hrow hlen,?_⟩
    rw [Layout.char,if_neg hnl,hglyph]
    -- five columns and the edge, six columns and what fits: the same test
    split_ifs with hfull hover hover
    · have hzero := goToNextLine_cursorPos s
      have hfit : (goToNextLine Display.receive s).cursorPos.toNat+(row ++ [0x00]).length ≤ 128 := by
        rw [hzero,hlen']; decide
      have hsync := goToNextLine_inSync hs.ready
      refine ⟨(columns_inSync hsync hcons hfit).1,?_⟩
      rw [columns_view hsync hcons hfit,goToNextLine_view hs,hlen']
    · exfalso
      rw [hmax,fontSize] at hfull
      simp only [view, shown] at hover
      omega
    · exfalso
      rw [hmax,fontSize] at hfull
      simp only [view, shown] at hover
      omega
    · have hfit : s.cursorPos.toNat+(row ++ [0x00]).length ≤ 128 := by
        rw [hmax,fontSize] at hfull
        omega
      refine ⟨(columns_inSync hs hcons hfit).1,?_⟩
      rw [columns_view hs hcons hfit,hlen']

theorem string_view {s : Ssd1306 Display} (hs : InSync s) {str : List UInt8} (hstr : ∀ c ∈ str, Printable c) :
    ∃ t, string Display.receive s str = some t ∧ view t = (view s).text str := by
  induction str generalizing s with
  | nil => exact ⟨s,rfl,rfl⟩
  | cons c str ih =>
    have hc := hstr c List.mem_cons_self
    obtain ⟨u,hu,husync,huview⟩ := printChar_view hs hc
    obtain ⟨t,ht,htview⟩ := ih husync fun d hd => hstr d (List.mem_cons_of_mem _ hd)
    refine ⟨t,?_,?_⟩
    · rw [string,if_neg (ne_zero_of_printable hc),hu]
      exact ht
    · rw [htview,huview]
      rfl

end Spi

/-- From every place on the screen, and over whatever it shows, both drivers show a text as the layout
has it, and leave the counters where the layout leaves the place of the next character. -/
theorem text_as_laid_out {str : List UInt8} (hstr : ∀ c ∈ str, Spi.Printable c) :
    (∀ s : Spi.Ssd1306 Spi.Display, s.bus.rst = true → Tracks s.bus.panel s.lineNum s.cursorPos →
      ∃ t, Spi.string Spi.Display.receive s str = some t ∧
        shown t.bus.panel t.lineNum t.cursorPos = (shown s.bus.panel s.lineNum s.cursorPos).text str) ∧
    (∀ s : I2c.Ssd1306 Panel, Tracks s.bus s.lineNum s.cursorPos →
      ∃ t, I2c.string I2c.message s str = some t ∧
        shown t.bus t.lineNum t.cursorPos = (shown s.bus s.lineNum s.cursorPos).text str) := by
  constructor
  · intro s hrst htracks
    exact Spi.string_view (Spi.inSync_of_tracks hrst htracks) hstr
  · intro s htracks
    obtain ⟨v,hv,hview⟩ := Spi.string_view (s := I2c.twin s) (Spi.inSync_of_tracks rfl htracks) hstr
    have hrel := I2c.string_same I2c.carries_panel (I2c.twin_same s) str
    rw [hv] at hrel
    obtain ⟨t,ht,hline,hcursor,-,hpanel⟩ := exists_of_rel hrel
    refine ⟨t,ht,?_⟩
    rw [← hline,← hcursor,← hpanel]
    exact hview

/-- The second character no longer fits into the last line, and goes to the first one. -/
theorem text_as_laid_out_at_edge : ∃ t,
    Spi.string Spi.Display.receive ⟨7,120,⟨⟨fun _ => 0xFF,⟨2,7,60,127⟩,(7,120),none,[]⟩,true,true⟩⟩
      [0x41,0x42,Spi.newline,0x7E] = some t ∧
    t.lineNum.toNat = 1 ∧ t.cursorPos.toNat = 6 ∧ t.bus.panel.ram (0,1) = 0x49 := by
  have hstr : ∀ c ∈ [0x41,0x42,Spi.newline,0x7E], Spi.Printable c := by
    simp [Spi.Printable, Spi.newline]
  obtain ⟨t,ht,hview⟩ := (text_as_laid_out hstr).1
    ⟨7,120,⟨⟨fun _ => 0xFF,⟨2,7,60,127⟩,(7,120),none,[]⟩,true,true⟩⟩ rfl
    ⟨rfl,by decide,by decide,rfl,rfl,by decide,by decide,rfl⟩
  refine ⟨t,ht,?_,?_,?_⟩
  · exact congrArg Layout.line hview
  · exact congrArg Layout.col hview
  · exact (congrFun (congrArg Layout.ram hview) (0,1)).trans (by decide)

end ExampleKernel.Oled
