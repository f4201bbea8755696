import ExampleKernel.Oled.Cursor

/-! The SPI display driver on two buses: whatever relates them and is kept by a byte written on both is
kept by every function of the driver. What a single bus keeps is the case of a second one that knows nothing. -/
namespace ExampleKernel.Oled.Spi
open ExampleKernel.Foundation

/-- Equal counters, and buses related by `R`. -/
structure Alike {β γ : Type} (R : β → γ → Prop) (s : Ssd1306 β) (t : Ssd1306 γ) : Prop where
  lineNum : s.lineNum = t.lineNum
  cursorPos : s.cursorPos = t.cursorPos
  bus : R s.bus t.bus

section Alike
variable {β γ : Type} {send : β → Wire → β} {send' : γ → Wire → γ} {R : β → γ → Prop}

/-- `R` is kept by a byte written on both buses, DC being set before it. -/
def Conveys (send : β → Wire → β) (send' : γ → Wire → γ) (R : β → γ → Prop) : Prop :=
  ∀ b c (isCmd : Bool) data, R b c →
    R (send (send b (.gpioSetValue dcPin (if isCmd then 0 else 1))) (.spi data))
      (send' (send' c (.gpioSetValue dcPin (if isCmd then 0 else 1))) (.spi data))

variable (hR : Conveys send send' R) {s : Ssd1306 β} {t : Ssd1306 γ} (hs : Alike R s t)
include hR hs

theorem write_alike (isCmd : Bool) (b : UInt8) : Alike R (write send s isCmd b) (write send' t isCmd b) :=
  ⟨hs.lineNum,hs.cursorPos,hR _ _ isCmd b hs.bus⟩

theorem writes_alike (isCmd : Bool) (bs : List UInt8) : Alike R (writes send s isCmd bs) (writes send' t isCmd bs) := by
  induction bs generalizing s t with
  | nil => exact hs
  | cons b bs ih => exact ih (write_alike hR hs isCmd b)

theorem setCursor_alike (line col : UInt8) : Alike R (setCursor send s line col) (setCursor send' t line col) := by
  unfold setCursor
  split_ifs
  · have hmoved : Alike R {s with lineNum := line, cursorPos := col} {t with lineNum := line, cursorPos := col} :=
      ⟨rfl,rfl,hs.bus⟩
    exact writes_alike hR hmoved true [0x21,col,maxSeg-1,0x22,line,maxLine]
  · exact hs

theorem goToNextLine_alike : Alike R (goToNextLine send s) (goToNextLine send' t) := by
  unfold goToNextLine
  simp only [← hs.lineNum]
  exact setCursor_alike hR (s := {s with lineNum := (s.lineNum+1) &&& maxLine})
    (t := {t with lineNum := (s.lineNum+1) &&& maxLine}) ⟨rfl,hs.cursorPos,hs.bus⟩ _ 0

omit hR in
theorem advance_alike : Alike R (advance s) (advance t) :=
  ⟨hs.lineNum,by simp only [advance, hs.cursorPos],hs.bus⟩

theorem printChar_alike (c : UInt8) : Option.Rel (Alike R) (printChar send s c) (printChar send' t c) := by
  unfold printChar
  have hline : Alike R
      (if s.cursorPos.toNat+fontSize ≥ maxSeg.toNat ∨ c = newline then goToNextLine send s else s)
      (if t.cursorPos.toNat+fontSize ≥ maxSeg.toNat ∨ c = newline then goToNextLine send' t else t) := by
    rw [hs.cursorPos]
    split_ifs
    · exact goToNextLine_alike hR hs
    · exact hs
  by_cases hnl : c = newline
  · rw [if_neg (not_not.mpr hnl),if_neg (not_not.mpr hnl)]
    exact .some hline
  · rw [if_pos hnl,if_pos hnl]
    refine bind_rel (foldlM_rel (fun u v temp huv => ?_) hline _) fun u v huv =>
      .some (advance_alike (write_alike hR huv false 0x00))
    cases ssd1306Font[(c-0x20).toNat]? with
    | none => exact .none
    | some row =>
      cases hcol : row[temp]? with
      | none => simp [hcol]
      | some b => simpa [hcol] using advance_alike (write_alike hR huv false b)

theorem string_alike (str : List UInt8) : Option.Rel (Alike R) (string send s str) (string send' t str) := by
  induction str generalizing s t with
  | nil => exact .some hs
  | cons c str ih =>
    rw [string,string]
    split_ifs with hc
    · exact .some hs
    · exact bind_rel (printChar_alike hR hs c) fun _ _ huv => ih huv

theorem clearDisplay_alike : Alike R (clearDisplay send s) (clearDisplay send' t) := by
  rw [clearDisplay,clearDisplay,fill_eq_writes,fill_eq_writes]
  exact writes_alike hR (setCursor_alike hR hs 0 0) false _

theorem exec_alike (op : Op) : Option.Rel (Alike R) (exec send s op) (exec send' t op) := by
  cases op with
  | printChar c => exact printChar_alike hR hs c
  | string str => exact string_alike hR hs str
  | setCursor line col => exact .some (setCursor_alike hR hs line col)
  | goToNextLine => exact .some (goToNextLine_alike hR hs)
  | invertDisplay b =>
    cases b with
    | true => exact .some (writes_alike hR hs true [0xA7])
    | false => exact .some (writes_alike hR hs true [0xA6])
  | setBrightness v => exact .some (writes_alike hR hs true [0x81,v])
  | startScrollHorizontal b first last =>
    cases b with
    | true => exact .some (writes_alike hR hs true [0x27,0x00,first,0x00,last,0x00,0xFF,0x2F])
    | false => exact .some (writes_alike hR hs true [0x26,0x00,first,0x00,last,0x00,0xFF,0x2F])
  | startScrollVerticalHorizontal b first last area rows =>
    cases b with
    | true => exact .some (writes_alike hR hs true [0xA3,0x00,area,0x2A,0x00,first,0x00,last,rows,0x2F])
    | false => exact .some (writes_alike hR hs true [0xA3,0x00,area,0x29,0x00,first,0x00,last,rows,0x2F])
  | deactivateScroll => exact .some (writes_alike hR hs true [0x2E])
  | fill data =>
    rw [exec,exec,fill_eq_writes,fill_eq_writes]
    exact .some (writes_alike hR hs false _)
  | clearDisplay => exact .some (clearDisplay_alike hR hs)
  | printLogo =>
    rw [exec,exec,printLogo_eq_writes,printLogo_eq_writes]
    exact .some (writes_alike hR (setCursor_alike hR hs 0 0) false _)

/-- What relates two buses after every byte relates them after every sequence of calls. -/
theorem run_alike (ops : List Op) : Option.Rel (Alike R) (run (exec send) s ops) (run (exec send') t ops) := by
  have hrun := run_rel (f := id) (fun _ _ op h => exec_alike hR h op) hs ops
  rwa [List.map_id] at hrun

end Alike

section Kept
variable {β : Type} {send : β → Wire → β} {P : β → Prop}

/-- `P` is kept by a byte on the bus, DC being set before it. -/
def Keeps (send : β → Wire → β) (P : β → Prop) : Prop :=
  ∀ b (isCmd : Bool) data, P b → P (send (send b (.gpioSetValue dcPin (if isCmd then 0 else 1))) (.spi data))

/-- The same driver on a bus that knows nothing. -/
def mute (s : Ssd1306 β) : Ssd1306 Unit := ⟨s.lineNum,s.cursorPos,()⟩

theorem conveys_mute (hP : Keeps send P) : Conveys send (fun (_ : Unit) _ => ()) fun b _ => P b :=
  fun b _ isCmd data hb => hP b isCmd data hb

theorem alike_mute {s : Ssd1306 β} (hs : P s.bus) : Alike (fun b (_ : Unit) => P b) s (mute s) := ⟨rfl,rfl,hs⟩

theorem kept_of_rel {x : Option (Ssd1306 β)} {y : Option (Ssd1306 Unit)} {t : Ssd1306 β}
    (hrel : Option.Rel (Alike fun b (_ : Unit) => P b) x y) (h : x = some t) : P t.bus := by
  subst h
  obtain ⟨u,-,hu⟩ := exists_of_rel hrel
  exact hu.bus

variable (hP : Keeps send P) {s t : Ssd1306 β} (hs : P s.bus)
include hP hs

theorem writes_kept (isCmd : Bool) (bs : List UInt8) : P (writes send s isCmd bs).bus :=
  (writes_alike (conveys_mute hP) (alike_mute hs) isCmd bs).bus

theorem clearDisplay_kept : P (clearDisplay send s).bus :=
  (clearDisplay_alike (conveys_mute hP) (alike_mute hs)).bus

theorem printChar_kept {c : UInt8} (h : printChar send s c = some t) : P t.bus :=
  kept_of_rel (printChar_alike (conveys_mute hP) (alike_mute hs) c) h

theorem exec_kept {op : Op} (h : exec send s op = some t) : P t.bus :=
  kept_of_rel (exec_alike (conveys_mute hP) (alike_mute hs) op) h

/-- What every byte keeps holds after every sequence of calls. -/
theorem run_kept {ops : List Op} (h : run (exec send) s ops = some t) : P t.bus :=
  kept_of_rel (run_alike (conveys_mute hP) (alike_mute hs) ops) h

end Kept

end ExampleKernel.Oled.Spi
