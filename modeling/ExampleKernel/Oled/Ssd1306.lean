import ExampleKernel.Oled.Tables

/-! The SPI display driver `ssd1306.c`: its software cursor and what each of its functions sends
over the pins and the bus. -/
namespace ExampleKernel.Oled.Spi

def rstPin : ℕ := 24
def dcPin : ℕ := 23
/-- `SSD1306_MAX_SEG` and `SSD1306_MAX_LINE`. -/
def maxSeg : UInt8 := 128
def maxLine : UInt8 := 7
/-- `SSD1306_FontSize`, which stays at `SSD1306_DEF_FONT_SIZE`. -/
def fontSize : ℕ := 5
def newline : UInt8 := 0x0A

/-- What the driver does to the pins and the bus; a request counts as granted. -/
inductive Wire
  | gpioRequest (pin : ℕ)
  | gpioDirectionOutput (pin value : ℕ)
  | gpioSetValue (pin value : ℕ)
  | gpioFree (pin : ℕ)
  | spi (data : UInt8)
  deriving DecidableEq

/-- The static variables of the driver, with the pins and the bus it is connected to. -/
structure Ssd1306 (β : Type) where
  lineNum : UInt8
  cursorPos : UInt8
  bus : β

/-- The answers of `gpio_is_valid` and `gpio_request`. -/
structure Gpio where
  isValid : ℕ → Bool
  request : ℕ → ℤ

/-- Both pins are valid, and requests for them are granted. -/
def Gpio.Granted (gpio : Gpio) : Prop := ∀ pin ∈ [rstPin,dcPin], gpio.isValid pin = true ∧ 0 ≤ gpio.request pin

instance (gpio : Gpio) : Decidable gpio.Granted := inferInstanceAs (Decidable (∀ pin ∈ _, _))

section Driver
variable {β : Type} (send : β → Wire → β)

def wire (s : Ssd1306 β) (w : Wire) : Ssd1306 β := {s with bus := send s.bus w}

/-- `ETX_SSD1306_ResetDcInit` -/
def resetDcInit (gpio : Gpio) (s : Ssd1306 β) : Ssd1306 β × ℤ :=
  if gpio.isValid rstPin = false then (s,-1)
  else if gpio.request rstPin < 0 then (s,-1)
  else
    let s := wire send s (.gpioRequest rstPin)
    let s := wire send s (.gpioDirectionOutput rstPin 1)
    if gpio.isValid dcPin = false then (wire send s (.gpioFree rstPin),-1)
    else if gpio.request dcPin < 0 then (wire send s (.gpioFree rstPin),-1)
    else
      let s := wire send s (.gpioRequest dcPin)
      (wire send s (.gpioDirectionOutput dcPin 1),0)

/-- `ETX_SSD1306_ResetDcDeInit` -/
def resetDcDeInit (s : Ssd1306 β) : Ssd1306 β :=
  wire send (wire send s (.gpioFree rstPin)) (.gpioFree dcPin)

def setRst (s : Ssd1306 β) (value : ℕ) : Ssd1306 β := wire send s (.gpioSetValue rstPin value)

def setDc (s : Ssd1306 β) (value : ℕ) : Ssd1306 β := wire send s (.gpioSetValue dcPin value)

/-- `ETX_SSD1306_Write`, on a module whose SPI device is set up. Nobody reads its result. -/
def write (s : Ssd1306 β) (isCmd : Bool) (data : UInt8) : Ssd1306 β :=
  wire send (setDc send s (if isCmd then 0 else 1)) (.spi data)

def setCursor (s : Ssd1306 β) (lineNo cursorPos : UInt8) : Ssd1306 β :=
  if lineNo ≤ maxLine ∧ cursorPos < maxSeg then
    let s := {s with lineNum := lineNo, cursorPos := cursorPos}
    let s := write send s true 0x21
    let s := write send s true cursorPos
    let s := write send s true (maxSeg-1)
    let s := write send s true 0x22
    let s := write send s true lineNo
    write send s true maxLine
  else s

def goToNextLine (s : Ssd1306 β) : Ssd1306 β :=
  let s := {s with lineNum := s.lineNum+1}
  let s := {s with lineNum := s.lineNum &&& maxLine}
  setCursor send s s.lineNum 0

/-- `SSD1306_CursorPos++` -/
def advance (s : Ssd1306 β) : Ssd1306 β := {s with cursorPos := s.cursorPos+1}

/-- `ETX_SSD1306_PrintChar`. It has no result when it reads outside `SSD1306_font`. -/
def printChar (s : Ssd1306 β) (c : UInt8) : Option (Ssd1306 β) :=
  let s := if s.cursorPos.toNat+fontSize ≥ maxSeg.toNat ∨ c = newline then goToNextLine send s else s
  if c ≠ newline then do
    let s ← (List.range fontSize).foldlM (fun s temp => do
      let row ← ssd1306Font[(c-0x20).toNat]?
      let dataByte ← row[temp]?
      return advance (write send s false dataByte)) s
    return advance (write send s false 0x00)
  else some s

/-- `ETX_SSD1306_String`, up to the terminator. -/
def string (s : Ssd1306 β) : List UInt8 → Option (Ssd1306 β)
  | [] => some s
  | c::str => if c = 0 then some s else (printChar send s c).bind fun s => string s str

def invertDisplay (s : Ssd1306 β) (needToInvert : Bool) : Ssd1306 β :=
  if needToInvert then write send s true 0xA7 else write send s true 0xA6

def setBrightness (s : Ssd1306 β) (brightnessValue : UInt8) : Ssd1306 β :=
  write send (write send s true 0x81) true brightnessValue

def startScrollHorizontal (s : Ssd1306 β) (isLeftScroll : Bool) (startLineNo endLineNo : UInt8) :
    Ssd1306 β :=
  let s := if isLeftScroll then write send s true 0x27 else write send s true 0x26
  let s := write send s true 0x00
  let s := write send s true startLineNo
  let s := write send s true 0x00
  let s := write send s true endLineNo
  let s := write send s true 0x00
  let s := write send s true 0xFF
  write send s true 0x2F

def startScrollVerticalHorizontal (s : Ssd1306 β) (isVerticalLeftScroll : Bool)
    (startLineNo endLineNo verticalArea rows : UInt8) : Ssd1306 β :=
  let s := write send s true 0xA3
  let s := write send s true 0x00
  let s := write send s true verticalArea
  let s := if isVerticalLeftScroll then write send s true 0x2A else write send s true 0x29
  let s := write send s true 0x00
  let s := write send s true startLineNo
  let s := write send s true 0x00
  let s := write send s true endLineNo
  let s := write send s true rows
  write send s true 0x2F

def deactivateScroll (s : Ssd1306 β) : Ssd1306 β := write send s true 0x2E

/-- The bytes that fill the screen. -/
def total : ℕ := maxSeg.toNat*(maxLine.toNat+1)

def fill (s : Ssd1306 β) (data : UInt8) : Ssd1306 β :=
  (List.range total).foldl (fun s _ => write send s false data) s

def clearDisplay (s : Ssd1306 β) : Ssd1306 β := fill send (setCursor send s 0 0) 0x00

/-- `ETX_SSD1306_PrintLogo`. It has no result when it reads outside `etx_logo`. -/
def printLogo (s : Ssd1306 β) : Option (Ssd1306 β) :=
  (List.range total).foldlM (fun s i => etxLogo[i]?.map fun data => write send s false data)
    (setCursor send s 0 0)

/-- The commands of `ETX_SSD1306_DisplayInit`. -/
def initCommands : List UInt8 := [0xAE,0xD5,0x80,0xA8,0x3F,0xD3,0x00,0x40,0x8D,0x14,0x20,0x00,0xA1,0xC8,
  0xDA,0x12,0x81,0x80,0xD9,0xF1,0xDB,0x20,0xA4,0xA6,0x2E,0xAF]

def displayInit (gpio : Gpio) (s : Ssd1306 β) : Ssd1306 β × ℤ :=
  let (s,ret) := resetDcInit send gpio s
  if 0 ≤ ret then
    let s := setRst send s 0
    let s := setRst send s 1
    let s := initCommands.foldl (fun s b => write send s true b) s
    (clearDisplay send s,ret)
  else (s,ret)

def displayDeInit (s : Ssd1306 β) : Ssd1306 β := resetDcDeInit send s

theorem resetDcInit_iff (gpio : Gpio) (s : Ssd1306 β) : 0 ≤ (resetDcInit send gpio s).2 ↔ gpio.Granted := by
  unfold resetDcInit Gpio.Granted
  simp only [List.forall_mem_cons, List.not_mem_nil, false_implies, implies_true, and_true]
  split_ifs with hrst hrstReq hdc hdcReq
  · simp [hrst]
  · simp [hrstReq.not_ge]
  · simp [hdc]
  · simp [hdcReq.not_ge]
  · simp at hrst hrstReq hdc hdcReq
    simp [hrst, hrstReq, hdc, hdcReq]

theorem displayInit_iff (gpio : Gpio) (s : Ssd1306 β) : 0 ≤ (displayInit send gpio s).2 ↔ gpio.Granted := by
  rw [← resetDcInit_iff send gpio s,displayInit]
  cases resetDcInit send gpio s with
  | mk t ret =>
    by_cases hret : 0 ≤ ret
    · simp only [if_pos hret]
    · simp only [if_neg hret]

end Driver

/-- The calls on a display that is initialised. -/
inductive Op
  | setCursor (lineNo cursorPos : UInt8)
  | goToNextLine
  | printChar (c : UInt8)
  | string (str : List UInt8)
  | invertDisplay (needToInvert : Bool)
  | setBrightness (brightnessValue : UInt8)
  | startScrollHorizontal (isLeftScroll : Bool) (startLineNo endLineNo : UInt8)
  | startScrollVerticalHorizontal (isVerticalLeftScroll : Bool)
      (startLineNo endLineNo verticalArea rows : UInt8)
  | deactivateScroll
  | fill (data : UInt8)
  | clearDisplay
  | printLogo
  deriving DecidableEq

def exec {β : Type} (send : β → Wire → β) (s : Ssd1306 β) : Op → Option (Ssd1306 β)
  | .setCursor lineNo cursorPos => some (setCursor send s lineNo cursorPos)
  | .goToNextLine => some (goToNextLine send s)
  | .printChar c => printChar send s c
  | .string str => string send s str
  | .invertDisplay b => some (invertDisplay send s b)
  | .setBrightness v => some (setBrightness send s v)
  | .startScrollHorizontal b first last => some (startScrollHorizontal send s b first last)
  | .startScrollVerticalHorizontal b first last area rows =>
    some (startScrollVerticalHorizontal send s b first last area rows)
  | .deactivateScroll => some (deactivateScroll send s)
  | .fill data => some (fill send s data)
  | .clearDisplay => some (clearDisplay send s)
  | .printLogo => printLogo send s

end ExampleKernel.Oled.Spi
