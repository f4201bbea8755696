import ExampleKernel.Oled.Cursor
import ExampleKernel.Oled.I2c

/-! The two display drivers are one program above the bus: whatever relates the two buses and is kept
by a byte written on both is kept by every function of the drivers. -/
namespace ExampleKernel.Oled.I2c
open ExampleKernel.Foundation

theorem total_eq : total = Spi.total := rfl

/-- Equal counters, and buses related by `R`. -/
structure Same {β γ : Type} (R : β → γ → Prop) (s : Spi.Ssd1306 β) (t : Ssd1306 γ) : Prop where
  lineNum : s.lineNum = t.lineNum
  cursorPos : s.cursorPos = t.cursorPos
  bus : R s.bus t.bus

section Same
variable {β γ : Type} {sendSpi : β → Spi.Wire → β} {send : γ → List UInt8 → γ} {R : β → γ → Prop}

/-- `R` is kept by a byte written on both buses. -/
def Carries (sendSpi : β → Spi.Wire → β) (send : γ → List UInt8 → γ) (R : β → γ → Prop) : Prop :=
  ∀ b c (isCmd : Bool) data, R b c →
    R (sendSpi (sendSpi b (.gpioSetValue Spi.dcPin (if isCmd then 0 else 1))) (.spi data))
      (send c [if isCmd then 0x00 else 0x40,data])

variable (hR : Carries sendSpi send R) {s : Spi.Ssd1306 β} {t : Ssd1306 γ} (hs : Same R s t)
include hR hs

theorem write_same (isCmd : Bool) (b : UInt8) : Same R (Spi.write sendSpi s isCmd b) (write send t isCmd b) :=
  ⟨hs.lineNum,hs.cursorPos,hR _ _ isCmd b hs.bus⟩

/-- Bytes of one kind one after the other. -/
theorem writes_same (isCmd : Bool) (bs : List UInt8) : Same R (Spi.writes sendSpi s isCmd bs)
    (bs.foldl (fun t b => write send t isCmd b) t) := by
  induction bs generalizing s t with
  | nil => exact hs
  | cons b bs ih => exact ih (write_same hR hs isCmd b)

theorem setCursor_same (line col : UInt8) :
    Same R (Spi.setCursor sendSpi s line col) (setCursor send t line col) := by
  unfold Spi.setCursor setCursor
  by_cases h : line ≤ maxLine ∧ col < maxSeg
  · rw [if_pos h,if_pos (show line ≤ Spi.maxLine ∧ col < Spi.maxSeg from h)]
    have hmoved : Same R {s with lineNum := line, cursorPos := col} {t with lineNum := line, cursorPos := col} :=
      ⟨rfl,rfl,hs.bus⟩
    exact writes_same hR hmoved true [0x21,col,maxSeg-1,0x22,line,maxLine]
  · rw [if_neg h,if_neg (show ¬ (line ≤ Spi.maxLine ∧ col < Spi.maxSeg) from h)]
    exact hs

theorem goToNextLine_same : Same R (Spi.goToNextLine sendSpi s) (goToNextLine send t) := by
  have hline : Same R {s with lineNum := (s.lineNum+1) &&& Spi.maxLine} {t with lineNum := (t.lineNum+1) &&& maxLine} :=
    ⟨by simp only [hs.lineNum]; rfl,hs.cursorPos,hs.bus⟩
  have hmoved := setCursor_same hR hline ((s.lineNum+1) &&& Spi.maxLine) 0
  unfold Spi.goToNextLine goToNextLine
  simp only [← hs.lineNum]
  simp only [← hs.lineNum] at hmoved
  exact hmoved

omit hR in
theorem advance_same : Same R (Spi.advance s) (advance t) :=
  ⟨hs.lineNum,by simp only [Spi.advance, advance, hs.cursorPos],hs.bus⟩

theorem printChar_same (c : UInt8) : Option.Rel (Same R) (Spi.printChar sendSpi s c) (printChar send t c) := by
  unfold Spi.printChar printChar
  have hline : Same R
      (if s.cursorPos.toNat+Spi.fontSize ≥ Spi.maxSeg.toNat ∨ c = Spi.newline then Spi.goToNextLine sendSpi s else s)
      (if t.cursorPos.toNat+fontSize ≥ maxSeg.toNat ∨ c = newline then goToNextLine send t else t) := by
    rw [hs.cursorPos]
    change Same R (if t.cursorPos.toNat+fontSize ≥ maxSeg.toNat ∨ c = newline then _ else _) _
    split_ifs
    · exact goToNextLine_same hR hs
    · exact hs
  by_cases hnl : c = newline
  · simp only [hnl, show newline = Spi.newline from rfl, ne_eq, not_true_eq_false, if_false] at hline ⊢
    exact .some hline
  · simp only [show Spi.newline = newline from rfl, hnl, or_false, ne_eq, not_false_eq_true, if_true] at hline ⊢
    refine bind_rel (foldlM_rel (fun u v temp huv => ?_) hline _) fun u v huv =>
      .some (advance_same (write_same hR huv false 0x00))
    -- the fonts are equal, so both find the same column or none
    rw [ssd1306Font_eq]
    cases Oled.ssd1306Font[(c-0x20).toNat]? with
    | none => exact .none
    | some row =>
      cases hcol : row[temp]? with
      | none => simp [hcol]
      | some b => simpa [hcol] using advance_same (write_same hR huv false b)

theorem string_same (str : List UInt8) : Option.Rel (Same R) (Spi.string sendSpi s str) (string send t str) := by
  induction str generalizing s t with
  | nil => exact .some hs
  | cons c str ih =>
    rw [Spi.string,string]
    split_ifs with hc
    · exact .some hs
    · exact bind_rel (printChar_same hR hs c) fun _ _ huv => ih huv

theorem invertDisplay_same (b : Bool) : Same R (Spi.invertDisplay sendSpi s b) (invertDisplay send t b) := by
  cases b with
  | true => exact write_same hR hs true 0xA7
  | false => exact write_same hR hs true 0xA6

theorem setBrightness_same (v : UInt8) : Same R (Spi.setBrightness sendSpi s v) (setBrightness send t v) :=
  writes_same hR hs true [0x81,v]

theorem startScrollHorizontal_same (b : Bool) (first last : UInt8) :
    Same R (Spi.startScrollHorizontal sendSpi s b first last) (startScrollHorizontal send t b first last) := by
  cases b with
  | true => exact writes_same hR hs true [0x27,0x00,first,0x00,last,0x00,0xFF,0x2F]
  | false => exact writes_same hR hs true [0x26,0x00,first,0x00,last,0x00,0xFF,0x2F]

theorem startScrollVerticalHorizontal_same (b : Bool) (first last area rows : UInt8) :
    Same R (Spi.startScrollVerticalHorizontal sendSpi s b first last area rows)
      (startScrollVerticalHorizontal send t b first last area rows) := by
  cases b with
  | true => exact writes_same hR hs true [0xA3,0x00,area,0x2A,0x00,first,0x00,last,rows,0x2F]
  | false => exact writes_same hR hs true [0xA3,0x00,area,0x29,0x00,first,0x00,last,rows,0x2F]

theorem fill_same (data : UInt8) : Same R (Spi.fill sendSpi s data) (fill send t data) := by
  rw [Spi.fill_eq_writes,fill,Spi.foldl_range_eq_replicate (fun t b => write send t false b)]
  exact writes_same hR hs false (List.replicate total data)

theorem exec_same (op : Op) : Option.Rel (Same R) (Spi.exec sendSpi s op.spi) (exec send t op) := by
  cases op with
  | setCursor line col => exact .some (setCursor_same hR hs line col)
  | goToNextLine => exact .some (goToNextLine_same hR hs)
  | printChar c => exact printChar_same hR hs c
  | string str => exact string_same hR hs str
  | invertDisplay b => exact .some (invertDisplay_same hR hs b)
  | setBrightness v => exact .some (setBrightness_same hR hs v)
  | startScrollHorizontal b first last => exact .some (startScrollHorizontal_same hR hs b first last)
  | startScrollVerticalHorizontal b first last area rows =>
    exact .some (startScrollVerticalHorizontal_same hR hs b first last area rows)
  | fill data => exact .some (fill_same hR hs data)

end Same

/-- The characters of the font and the newline. -/
def Op.Printable : Op → Prop
  | .printChar c => Spi.Printable c
  | .string str => ∀ c ∈ str, Spi.Printable c
  | _ => True

theorem exec_total {β : Type} (send : β → Spi.Wire → β) (s : Spi.Ssd1306 β) {op : Op} (hop : op.Printable) :
    ∃ t, Spi.exec send s op.spi = some t := by
  cases op with
  | printChar c => exact Spi.printChar_total send s hop
  | string str => exact Spi.string_total send s hop
  | _ => exact ⟨_,rfl⟩

theorem run_total {β : Type} (send : β → Spi.Wire → β) (s : Spi.Ssd1306 β) {ops : List Op}
    (hops : ∀ op ∈ ops, op.Printable) : ∃ t, run (Spi.exec send) s (ops.map Op.spi) = some t := by
  induction ops generalizing s with
  | nil => exact ⟨s,rfl⟩
  | cons op ops ih =>
    obtain ⟨u,hu⟩ := exec_total send s (hops op List.mem_cons_self)
    obtain ⟨t,ht⟩ := ih u fun o ho => hops o (List.mem_cons_of_mem _ ho)
    exact ⟨t,run_cons_eq_some.mpr ⟨u,hu,ht⟩⟩

inductive Kind
  | command
  | data
  deriving DecidableEq, Repr

/-- What has arrived over SPI, with the level of DC. -/
structure SpiRecord where
  dc : Bool
  sent : List (Kind × UInt8)
  deriving DecidableEq

/-- DC low marks a command, DC high data. -/
def SpiRecord.receive (r : SpiRecord) : Spi.Wire → SpiRecord
  | .gpioDirectionOutput pin value | .gpioSetValue pin value =>
    if pin = Spi.dcPin then {r with dc := value ≠ 0} else r
  | .spi b => {r with sent := r.sent ++ [(if r.dc then .data else .command,b)]}
  | .gpioRequest _ | .gpioFree _ => r

/-- The kind that a control byte announces, in its sixth bit. -/
def kindOf (control : UInt8) : Kind := if control &&& 0x40 = 0 then .command else .data

/-- What has arrived over I2C, where a message begins with its control byte. -/
def receiveI2c (sent : List (Kind × UInt8)) : List UInt8 → List (Kind × UInt8)
  | [] => sent
  | control::bs => sent ++ bs.map fun b => (kindOf control,b)

theorem carries_record : Carries SpiRecord.receive receiveI2c fun r sent => r.sent = sent := by
  rintro r sent isCmd data rfl
  cases isCmd <;> rfl

/-- Above the bus the two drivers are one program: every sequence of calls with characters of the font
goes through in both, they send the same bytes as the same kinds, and end with equal counters. -/
theorem same_program (lineNum cursorPos : UInt8) (dc : Bool) {ops : List Op} (hops : ∀ op ∈ ops, op.Printable) :
    ∃ s t, run (Spi.exec SpiRecord.receive) ⟨lineNum,cursorPos,⟨dc,[]⟩⟩ (ops.map Op.spi) = some s ∧
      run (exec receiveI2c) ⟨lineNum,cursorPos,[]⟩ ops = some t ∧
      s.bus.sent = t.bus ∧ s.lineNum = t.lineNum ∧ s.cursorPos = t.cursorPos := by
  obtain ⟨s,hs⟩ := run_total SpiRecord.receive ⟨lineNum,cursorPos,⟨dc,[]⟩⟩ hops
  have hstart : Same (fun (r : SpiRecord) sent => r.sent = sent) ⟨lineNum,cursorPos,⟨dc,[]⟩⟩ ⟨lineNum,cursorPos,[]⟩ :=
    ⟨rfl,rfl,rfl⟩
  have hrun := run_rel (fun _ _ op h => exec_same carries_record h op) hstart ops
  rw [hs] at hrun
  obtain ⟨t,ht,hsame⟩ := exists_of_rel hrun
  exact ⟨s,t,hs,ht,hsame.bus,hsame.lineNum,hsame.cursorPos⟩

/-- A text with a newline, printed across the right edge of the last line. -/
theorem same_program_at_edge : ∃ s t,
    run (Spi.exec SpiRecord.receive) ⟨7,120,⟨true,[]⟩⟩ [.string [0x48,newline,0x7E],.setBrightness 0x21] = some s ∧
    run (exec receiveI2c) ⟨7,120,[]⟩ [.string [0x48,newline,0x7E],.setBrightness 0x21] = some t ∧
    s.bus.sent = t.bus ∧ s.cursorPos = t.cursorPos := by
  have hops : ∀ op ∈ [Op.string [0x48,newline,0x7E],.setBrightness 0x21], op.Printable := by
    simp [Op.Printable, Spi.Printable, Spi.newline, newline]
  obtain ⟨s,t,hs,ht,hsent,-,hcursor⟩ := same_program 7 120 true hops
  exact ⟨s,t,hs,ht,hsent,hcursor⟩

end ExampleKernel.Oled.I2c
