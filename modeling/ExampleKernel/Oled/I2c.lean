import ExampleKernel.Oled.Ssd1306

/-! The I2C display driver `oled_i2c.c`: a copy of the SPI driver kept by hand, with a font of its own,
that sends every byte in a message behind a control byte. -/
namespace ExampleKernel.Oled.I2c

/-- `SSD1306_MAX_SEG` and `SSD1306_MAX_LINE`. -/
def maxSeg : UInt8 := 128
def maxLine : UInt8 := 7
/-- `SSD1306_FontSize`, which stays at `SSD1306_DEF_FONT_SIZE`. -/
def fontSize : ℕ := 5
def newline : UInt8 := 0x0A

/-- `SSD1306_font`. -/
def ssd1306Font : List (List UInt8) := [
  [0x00,0x00,0x00,0x00,0x00], [0x00,0x00,0x2f,0x00,0x00], [0x00,0x07,0x00,0x07,0x00],
  [0x14,0x7f,0x14,0x7f,0x14], [0x24,0x2a,0x7f,0x2a,0x12], [0x23,0x13,0x08,0x64,0x62],
  [0x36,0x49,0x55,0x22,0x50], [0x00,0x05,0x03,0x00,0x00], [0x00,0x1c,0x22,0x41,0x00],
  [0x00,0x41,0x22,0x1c,0x00], [0x14,0x08,0x3E,0x08,0x14], [0x08,0x08,0x3E,0x08,0x08],
  [0x00,0x00,0xA0,0x60,0x00], [0x08,0x08,0x08,0x08,0x08], [0x00,0x60,0x60,0x00,0x00],
  [0x20,0x10,0x08,0x04,0x02], [0x3E,0x51,0x49,0x45,0x3E], [0x00,0x42,0x7F,0x40,0x00],
  [0x42,0x61,0x51,0x49,0x46], [0x21,0x41,0x45,0x4B,0x31], [0x18,0x14,0x12,0x7F,0x10],
  [0x27,0x45,0x45,0x45,0x39], [0x3C,0x4A,0x49,0x49,0x30], [0x01,0x71,0x09,0x05,0x03],
  [0x36,0x49,0x49,0x49,0x36], [0x06,0x49,0x49,0x29,0x1E], [0x00,0x36,0x36,0x00,0x00],
  [0x00,0x56,0x36,0x00,0x00], [0x08,0x14,0x22,0x41,0x00], [0x14,0x14,0x14,0x14,0x14],
  [0x00,0x41,0x22,0x14,0x08], [0x02,0x01,0x51,0x09,0x06], [0x32,0x49,0x59,0x51,0x3E],
  [0x7C,0x12,0x11,0x12,0x7C], [0x7F,0x49,0x49,0x49,0x36], [0x3E,0x41,0x41,0x41,0x22],
  [0x7F,0x41,0x41,0x22,0x1C], [0x7F,0x49,0x49,0x49,0x41], [0x7F,0x09,0x09,0x09,0x01],
  [0x3E,0x41,0x49,0x49,0x7A], [0x7F,0x08,0x08,0x08,0x7F], [0x00,0x41,0x7F,0x41,0x00],
  [0x20,0x40,0x41,0x3F,0x01], [0x7F,0x08,0x14,0x22,0x41], [0x7F,0x40,0x40,0x40,0x40],
  [0x7F,0x02,0x0C,0x02,0x7F], [0x7F,0x04,0x08,0x10,0x7F], [0x3E,0x41,0x41,0x41,0x3E],
  [0x7F,0x09,0x09,0x09,0x06], [0x3E,0x41,0x51,0x21,0x5E], [0x7F,0x09,0x19,0x29,0x46],
  [0x46,0x49,0x49,0x49,0x31], [0x01,0x01,0x7F,0x01,0x01], [0x3F,0x40,0x40,0x40,0x3F],
  [0x1F,0x20,0x40,0x20,0x1F], [0x3F,0x40,0x38,0x40,0x3F], [0x63,0x14,0x08,0x14,0x63],
  [0x07,0x08,0x70,0x08,0x07], [0x61,0x51,0x49,0x45,0x43], [0x00,0x7F,0x41,0x41,0x00],
  [0x55,0xAA,0x55,0xAA,0x55], [0x00,0x41,0x41,0x7F,0x00], [0x04,0x02,0x01,0x02,0x04],
  [0x40,0x40,0x40,0x40,0x40], [0x00,0x03,0x05,0x00,0x00], [0x20,0x54,0x54,0x54,0x78],
  [0x7F,0x48,0x44,0x44,0x38], [0x38,0x44,0x44,0x44,0x20], [0x38,0x44,0x44,0x48,0x7F],
  [0x38,0x54,0x54,0x54,0x18], [0x08,0x7E,0x09,0x01,0x02], [0x18,0xA4,0xA4,0xA4,0x7C],
  [0x7F,0x08,0x04,0x04,0x78], [0x00,0x44,0x7D,0x40,0x00], [0x40,0x80,0x84,0x7D,0x00],
  [0x7F,0x10,0x28,0x44,0x00], [0x00,0x41,0x7F,0x40,0x00], [0x7C,0x04,0x18,0x04,0x78],
  [0x7C,0x08,0x04,0x04,0x78], [0x38,0x44,0x44,0x44,0x38], [0xFC,0x24,0x24,0x24,0x18],
  [0x18,0x24,0x24,0x18,0xFC], [0x7C,0x08,0x04,0x04,0x08], [0x48,0x54,0x54,0x54,0x20],
  [0x04,0x3F,0x44,0x40,0x20], [0x3C,0x40,0x40,0x20,0x7C], [0x1C,0x20,0x40,0x20,0x1C],
  [0x3C,0x40,0x30,0x40,0x3C], [0x44,0x28,0x10,0x28,0x44], [0x1C,0xA0,0xA0,0xA0,0x7C],
  [0x44,0x64,0x54,0x4C,0x44], [0x00,0x10,0x7C,0x82,0x00], [0x00,0x00,0xFF,0x00,0x00],
  [0x00,0x82,0x7C,0x10,0x00], [0x00,0x06,0x09,0x09,0x06]]

/-- The static variables of the driver, with the bus it is connected to. -/
structure Ssd1306 (γ : Type) where
  lineNum : UInt8
  cursorPos : UInt8
  bus : γ

section Driver
variable {γ : Type} (send : γ → List UInt8 → γ)

/-- `I2C_Write`; `i2c_master_send` takes a message. -/
def i2cWrite (s : Ssd1306 γ) (buf : List UInt8) : Ssd1306 γ := {s with bus := send s.bus buf}

/-- `SSD1306_Write` -/
def write (s : Ssd1306 γ) (isCmd : Bool) (data : UInt8) : Ssd1306 γ :=
  i2cWrite send s [if isCmd then 0x00 else 0x40,data]

def setCursor (s : Ssd1306 γ) (lineNo cursorPos : UInt8) : Ssd1306 γ :=
  if lineNo ≤ maxLine ∧ cursorPos < maxSeg then
    let s := {s with lineNum := lineNo, cursorPos := cursorPos}
    let s := write send s true 0x21
    let s := write send s true cursorPos
    let s := write send s true (maxSeg-1)
    let s := write send s true 0x22
    let s := write send s true lineNo
    write send s true maxLine
  else s

def goToNextLine (s : Ssd1306 γ) : Ssd1306 γ :=
  let s := {s with lineNum := s.lineNum+1}
  let s := {s with lineNum := s.lineNum &&& maxLine}
  setCursor send s s.lineNum 0

/-- `SSD1306_CursorPos++` -/
def advance (s : Ssd1306 γ) : Ssd1306 γ := {s with cursorPos := s.cursorPos+1}

/-- `SSD1306_PrintChar`. It has no result when it reads outside `SSD1306_font`. -/
def printChar (s : Ssd1306 γ) (c : UInt8) : Option (Ssd1306 γ) :=
  let s := if s.cursorPos.toNat+fontSize ≥ maxSeg.toNat ∨ c = newline then goToNextLine send s else s
  if c ≠ newline then do
    let s ← (List.range fontSize).foldlM (fun s temp => do
      let row ← ssd1306Font[(c-0x20).toNat]?
      let dataByte ← row[temp]?
      return advance (write send s false dataByte)) s
    return advance (write send s false 0x00)
  else some s

/-- `SSD1306_String`, up to the terminator. -/
def string (s : Ssd1306 γ) : List UInt8 → Option (Ssd1306 γ)
  | [] => some s
  | c::str => if c = 0 then some s else (printChar send s c).bind fun s => string s str

def invertDisplay (s : Ssd1306 γ) (needToInvert : Bool) : Ssd1306 γ :=
  if needToInvert then write send s true 0xA7 else write send s true 0xA6

def setBrightness (s : Ssd1306 γ) (brightnessValue : UInt8) : Ssd1306 γ :=
  write send (write send s true 0x81) true brightnessValue

def startScrollHorizontal (s : Ssd1306 γ) (isLeftScroll : Bool) (startLineNo endLineNo : UInt8) :
    Ssd1306 γ :=
  let s := if isLeftScroll then write send s true 0x27 else write send s true 0x26
  let s := write send s true 0x00
  let s := write send s true startLineNo
  let s := write send s true 0x00
  let s := write send s true endLineNo
  let s := write send s true 0x00
  let s := write send s true 0xFF
  write send s true 0x2F

def startScrollVerticalHorizontal (s : Ssd1306 γ) (isVerticalLeftScroll : Bool)
    (startLineNo endLineNo verticalArea rows : UInt8) : Ssd1306 γ :=
  let s := write send s true 0xA3
  let s := write send s true 0x00
  let s := write send s true verticalArea
  let s := if isVerticalLeftScroll then write send s true 0x2A else write send s true 0x29
  let s := write send s true 0x00
  let s := write send s true startLineNo
  let s := write send s true 0x00
  let s := write send s true endLineNo
  let s := write send s true rows
  write send s true 0x2F

/-- The bytes that fill the screen. -/
def total : ℕ := 128*8

def fill (s : Ssd1306 γ) (data : UInt8) : Ssd1306 γ :=
  (List.range total).foldl (fun s _ => write send s false data) s

/-- The commands of `SSD1306_DisplayInit`. -/
def initCommands : List UInt8 := [0xAE,0xD5,0x80,0xA8,0x3F,0xD3,0x00,0x40,0x8D,0x14,0x20,0x00,0xA1,0xC8,
  0xDA,0x12,0x81,0x80,0xD9,0xF1,0xDB,0x20,0xA4,0xA6,0x2E,0xAF]

/-- `SSD1306_DisplayInit`. This driver has no reset pin, and its result is always 0. -/
def displayInit (s : Ssd1306 γ) : Ssd1306 γ :=
  let s := initCommands.foldl (fun s b => write send s true b) s
  fill send s 0x00

end Driver

/-- The calls on a display that the two drivers have in common. -/
inductive Op
  | setCursor (lineNo cursorPos : UInt8)
  | goToNextLine
  | printChar (c : UInt8)
  | string (str : List UInt8)
  | invertDisplay (needToInvert : Bool)
  | setBrightness (brightnessValue : UInt8)
  | startScrollHorizontal (isLeftScroll : Bool) (startLineNo endLineNo : UInt8)
  | startScrollVerticalHorizontal (isVerticalLeftScroll : Bool)
      (startLineNo endLineNo verticalArea rows : UInt8)
  | fill (data : UInt8)
  deriving DecidableEq

def exec {γ : Type} (send : γ → List UInt8 → γ) (s : Ssd1306 γ) : Op → Option (Ssd1306 γ)
  | .setCursor lineNo cursorPos => some (setCursor send s lineNo cursorPos)
  | .goToNextLine => some (goToNextLine send s)
  | .printChar c => printChar send s c
  | .string str => string send s str
  | .invertDisplay b => some (invertDisplay send s b)
  | .setBrightness v => some (setBrightness send s v)
  | .startScrollHorizontal b first last => some (startScrollHorizontal send s b first last)
  | .startScrollVerticalHorizontal b first last area rows =>
    some (startScrollVerticalHorizontal send s b first last area rows)
  | .fill data => some (fill send s data)

/-- The same call on the other driver. -/
def Op.spi : Op → Spi.Op
  | .setCursor lineNo cursorPos => .setCursor lineNo cursorPos
  | .goToNextLine => .goToNextLine
  | .printChar c => .printChar c
  | .string str => .string str
  | .invertDisplay b => .invertDisplay b
  | .setBrightness v => .setBrightness v
  | .startScrollHorizontal b first last => .startScrollHorizontal b first last
  | .startScrollVerticalHorizontal b first last area rows =>
    .startScrollVerticalHorizontal b first last area rows
  | .fill data => .fill data

/-- The two fonts have not drifted apart. -/
theorem ssd1306Font_eq : ssd1306Font = Oled.ssd1306Font := rfl

end ExampleKernel.Oled.I2c
