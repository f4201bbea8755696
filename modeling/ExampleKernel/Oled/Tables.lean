import Mathlib.Tactic

/-! The tables of the SPI display driver: its five-column font and its logo. -/
namespace ExampleKernel.Oled

/-- `SSD1306_font`, a row of columns for each character from the space on. -/
def ssd1306Font : List (List UInt8) := [
  [0x00,0x00,0x00,0x00,0x00], [0x00,0x00,0x2f,0x00,0x00], [0x00,0x07,0x00,0x07,0x00],
  [0x14,0x7f,0x14,0x7f,0x14], [0x24,0x2a,0x7f,0x2a,0x12], [0x23,0x13,0x08,0x64,0x62],
  [0x36,0x49,0x55,0x22,0x50], [0x00,0x05,0x03,0x00,0x00], [0x00,0x1c,0x22,0x41,0x00],
  [0x00,0x41,0x22,0x1c,0x00], [0x14,0x08,0x3E,0x08,0x14], [0x08,0x08,0x3E,0x08,0x08],
  [0x00,0x00,0xA0,0x60,0x00], [0x08,0x08,0x08,0x08,0x08], [0x00,0x60,0x60,0x00,0x00],
  [0x20,0x10,0x08,0x04,0x02], [0x3E,0x51,0x49,0x45,0x3E], [0x00,0x42,0x7F,0x40,0x00],
  [0x42,0x61,0x51,0x49,0x46], [0x21,0x41,0x45,0x4B,0x31], [0x18,0x14,0x12,0x7F,0x10],
  [0x27,0x45,0x45,0x45,0x39], [0x3C,0x4A,0x49,0x49,0x30], [0x01,0x71,0x09,0x05,0x03],
  [0x36,0x49,0x49,0x49,0x36], [0x06,0x49,0x49,0x29,0x1E], [0x00,0x36,0x36,0x00,0x00],
  [0x00,0x56,0x36,0x00,0x00], [0x08,0x14,0x22,0x41,0x00], [0x14,0x14,0x14,0x14,0x14],
  [0x00,0x41,0x22,0x14,0x08], [0x02,0x01,0x51,0x09,0x06], [0x32,0x49,0x59,0x51,0x3E],
  [0x7C,0x12,0x11,0x12,0x7C], [0x7F,0x49,0x49,0x49,0x36], [0x3E,0x41,0x41,0x41,0x22],
  [0x7F,0x41,0x41,0x22,0x1C], [0x7F,0x49,0x49,0x49,0x41], [0x7F,0x09,0x09,0x09,0x01],
  [0x3E,0x41,0x49,0x49,0x7A], [0x7F,0x08,0x08,0x08,0x7F], [0x00,0x41,0x7F,0x41,0x00],
  [0x20,0x40,0x41,0x3F,0x01], [0x7F,0x08,0x14,0x22,0x41], [0x7F,0x40,0x40,0x40,0x40],
  [0x7F,0x02,0x0C,0x02,0x7F], [0x7F,0x04,0x08,0x10,0x7F], [0x3E,0x41,0x41,0x41,0x3E],
  [0x7F,0x09,0x09,0x09,0x06], [0x3E,0x41,0x51,0x21,0x5E], [0x7F,0x09,0x19,0x29,0x46],
  [0x46,0x49,0x49,0x49,0x31], [0x01,0x01,0x7F,0x01,0x01], [0x3F,0x40,0x40,0x40,0x3F],
  [0x1F,0x20,0x40,0x20,0x1F], [0x3F,0x40,0x38,0x40,0x3F], [0x63,0x14,0x08,0x14,0x63],
  [0x07,0x08,0x70,0x08,0x07], [0x61,0x51,0x49,0x45,0x43], [0x00,0x7F,0x41,0x41,0x00],
  [0x55,0xAA,0x55,0xAA,0x55], [0x00,0x41,0x41,0x7F,0x00], [0x04,0x02,0x01,0x02,0x04],
  [0x40,0x40,0x40,0x40,0x40], [0x00,0x03,0x05,0x00,0x00], [0x20,0x54,0x54,0x54,0x78],
  [0x7F,0x48,0x44,0x44,0x38], [0x38,0x44,0x44,0x44,0x20], [0x38,0x44,0x44,0x48,0x7F],
  [0x38,0x54,0x54,0x54,0x18], [0x08,0x7E,0x09,0x01,0x02], [0x18,0xA4,0xA4,0xA4,0x7C],
  [0x7F,0x08,0x04,0x04,0x78], [0x00,0x44,0x7D,0x40,0x00], [0x40,0x80,0x84,0x7D,0x00],
  [0x7F,0x10,0x28,0x44,0x00], [0x00,0x41,0x7F,0x40,0x00], [0x7C,0x04,0x18,0x04,0x78],
  [0x7C,0x08,0x04,0x04,0x78], [0x38,0x44,0x44,0x44,0x38], [0xFC,0x24,0x24,0x24,0x18],
  [0x18,0x24,0x24,0x18,0xFC], [0x7C,0x08,0x04,0x04,0x08], [0x48,0x54,0x54,0x54,0x20],
  [0x04,0x3F,0x44,0x40,0x20], [0x3C,0x40,0x40,0x20,0x7C], [0x1C,0x20,0x40,0x20,0x1C],
  [0x3C,0x40,0x30,0x40,0x3C], [0x44,0x28,0x10,0x28,0x44], [0x1C,0xA0,0xA0,0xA0,0x7C],
  [0x44,0x64,0x54,0x4C,0x44], [0x00,0x10,0x7C,0x82,0x00], [0x00,0x00,0xFF,0x00,0x00],
  [0x00,0x82,0x7C,0x10,0x00], [0x00,0x06,0x09,0x09,0x06]]

/-- `etx_logo`, the whole screen in pages of 128 columns. -/
def etxLogo : List UInt8 := [
  0xFF,0x01,0x01,0x01,0x01,0x01,0x01,0x01,0x01,0x01,0xE1,0xF9,0xFF,0xF9,0xE1,0x01,
  0x01,0x01,0x01,0x01,0x01,0x01,0x01,0x01,0x01,0x01,0x01,0x01,0x01,0x01,0x01,0x01,
  0x01,0x01,0x01,0x01,0x01,0x01,0x01,0x01,0x01,0x01,0x01,0x01,0x01,0x01,0x01,0x01,
  0x01,0x01,0x01,0x01,0x01,0x01,0x01,0x01,0x01,0x01,0x01,0x01,0x01,0x01,0x01,0x01,
  0x01,0x01,0x01,0x01,0x01,0x01,0x01,0x01,0x01,0x01,0x01,0x01,0x01,0x01,0x01,0x01,
  0x01,0x01,0x01,0x01,0x01,0x01,0x01,0x01,0x01,0x01,0x01,0x01,0x01,0x01,0x01,0x01,
  0x01,0x01,0x01,0x01,0x01,0x01,0x01,0x01,0x01,0x01,0x01,0x01,0x01,0x01,0x01,0x01,
  0x01,0x01,0x01,0x01,0x01,0x01,0x01,0x01,0x01,0x01,0x01,0x01,0x01,0x01,0x01,0xFF,
  0xFF,0x00,0x00,0x00,0x00,0x00,0x00,0x80,0xF8,0xFF,0x0F,0xFF,0xFF,0xFF,0x3F,0xFF,
  0xF8,0x80,0x00,0x00,0x00,0x00,0x00,0x00,0x00,0x00,0x00,0x00,0x00,0x00,0x00,0x00,
  0x00,0x00,0x00,0x00,0x00,0x00,0x00,0x00,0x00,0x00,0x00,0x00,0x00,0x00,0x00,0x00,
  0x00,0x00,0x00,0x00,0x00,0x00,0x00,0x00,0x00,0x00,0x00,0x00,0x00,0x00,0x00,0x00,
  0x00,0x00,0x00,0x00,0x00,0x00,0x00,0x00,0x00,0x00,0x00,0x00,0x00,0x00,0x00,0x00,
  0x00,0x00,0x00,0x00,0x00,0x00,0x00,0x00,0x00,0x00,0x00,0x00,0x00,0x00,0x00,0x00,
  0x00,0x00,0x00,0x00,0x00,0x00,0x00,0x00,0x00,0x00,0x00,0x00,0x00,0x00,0x00,0x00,
  0x00,0x00,0x00,0x00,0x00,0x00,0x00,0x00,0x00,0x00,0x00,0x00,0x00,0x00,0x00,0xFF,
  0xFF,0x00,0x00,0x00,0x00,0x00,0xF8,0xFF,0xFF,0x0F,0xF8,0xF7,0x00,0xBF,0xC0,0x7F,
  0xFF,0xFF,0xF0,0x00,0x00,0x00,0x00,0x00,0x00,0x00,0x00,0x00,0x00,0x00,0x00,0x00,
  0x00,0x00,0x00,0x00,0x00,0x00,0x00,0x00,0x00,0x00,0x00,0x00,0x00,0x00,0x00,0x00,
  0x00,0x00,0x00,0x00,0x00,0x00,0x00,0x00,0x00,0x00,0x00,0x00,0x00,0x00,0x00,0x00,
  0x00,0x00,0x00,0x00,0x00,0x00,0x00,0x00,0x00,0x00,0x00,0x00,0x00,0x00,0x00,0x00,
  0x00,0x00,0x00,0x00,0x00,0x00,0x00,0x00,0x00,0x00,0x00,0x00,0x00,0x00,0x00,0x00,
  0x00,0x00,0x00,0x00,0x00,0x00,0x00,0x00,0x00,0x00,0x00,0x00,0x00,0x00,0x00,0x00,
  0x00,0x00,0x00,0x00,0x00,0x00,0x00,0x00,0x00,0x00,0x00,0x00,0x00,0x00,0x00,0xFF,
  0xFF,0x00,0x00,0x00,0x00,0x00,0xFF,0xFF,0x3F,0xE0,0x0F,0x7F,0x00,0xFF,0x7F,0x80,
  0xFF,0xFF,0xFF,0x00,0x00,0x04,0xFC,0xFC,0x0C,0x0C,0x0C,0x0C,0x7C,0x00,0x00,0x00,
  0x80,0x80,0x80,0x80,0x80,0x00,0x80,0x80,0x80,0x00,0x00,0x00,0x00,0x04,0xFC,0xF8,
  0x80,0x80,0x80,0x00,0x00,0x00,0x00,0x00,0x00,0x80,0x80,0x80,0x00,0x00,0x00,0x08,
  0x04,0x04,0xFC,0xFC,0x04,0x04,0x04,0x00,0x00,0x80,0x80,0x80,0x80,0x00,0x00,0x00,
  0x00,0x00,0x80,0x80,0x80,0x00,0x00,0x00,0x00,0x00,0x80,0x80,0x80,0x80,0x80,0x80,
  0x00,0x00,0x00,0x00,0x00,0x98,0x98,0x00,0x00,0x00,0x00,0x80,0x80,0x80,0x80,0x80,
  0x00,0x00,0x04,0x0C,0x38,0xE0,0x80,0xE0,0x38,0x0C,0x04,0x00,0x00,0x00,0x00,0xFF,
  0xFF,0x00,0x00,0x00,0x00,0x00,0xFF,0xFF,0xC0,0x3F,0xFF,0xFF,0x00,0xFD,0xFE,0xFF,
  0x01,0xFF,0xFF,0x00,0x00,0x00,0xFF,0xFF,0x06,0x06,0x06,0x06,0xE0,0x00,0x00,0x00,
  0x00,0xFF,0xFF,0x00,0xFF,0xFF,0x00,0x00,0xFF,0xFF,0x00,0x00,0x00,0x00,0xFF,0xFF,
  0x00,0x00,0xFF,0xFE,0x00,0x00,0x00,0x7C,0xFF,0x11,0x10,0x1F,0x1F,0x00,0x00,0x00,
  0x00,0x00,0xFF,0xFF,0x00,0x00,0x00,0x00,0x00,0xFF,0xFF,0x00,0x00,0x00,0x00,0x00,
  0x7C,0xFF,0x01,0x00,0x01,0xFF,0x7C,0x00,0x00,0x00,0x00,0xFF,0xFF,0x00,0x00,0xFF,
  0xFF,0x00,0x00,0x00,0x00,0xFF,0xFF,0x00,0x00,0x00,0xFF,0xFF,0x00,0x00,0x00,0x87,
  0x00,0x00,0x00,0x00,0xE0,0x3F,0x1F,0xFF,0xE0,0x00,0x00,0x00,0x00,0x00,0x00,0xFF,
  0xFF,0x00,0x00,0x00,0x00,0x00,0x00,0x07,0x1F,0x3F,0xFC,0xF7,0x00,0xDF,0xE3,0x7D,
  0x3E,0x07,0x00,0x00,0x00,0x00,0x03,0x03,0x03,0x03,0x03,0x03,0x03,0x00,0x00,0x00,
  0x00,0x03,0x03,0x00,0x03,0x03,0x00,0x00,0x03,0x03,0x00,0x00,0x00,0x00,0x03,0x03,
  0x02,0x02,0x03,0x00,0x00,0x00,0x00,0x00,0x01,0x03,0x02,0x02,0x01,0x00,0x00,0x00,
  0x00,0x00,0x03,0x03,0x00,0x00,0x00,0x00,0x00,0x03,0x03,0x00,0x00,0x00,0x00,0x00,
  0x00,0x01,0x03,0x02,0x03,0x01,0x00,0x00,0x00,0x00,0x00,0x03,0x03,0x00,0x00,0x03,
  0x03,0x00,0x00,0x00,0x00,0x03,0x03,0x00,0x00,0x00,0x01,0x03,0x03,0x02,0x02,0x03,
  0x00,0x00,0x02,0x03,0x01,0x00,0x00,0x00,0x01,0x03,0x02,0x00,0x00,0x00,0x00,0xFF,
  0xFF,0x00,0x00,0x00,0x00,0x00,0x00,0x00,0x00,0x00,0x03,0xFF,0x00,0xFF,0x03,0x00,
  0x00,0x00,0x00,0x00,0x00,0xF8,0x88,0x88,0x08,0x00,0xE0,0x20,0x20,0xE0,0x20,0xE0,
  0x00,0xFC,0x20,0x20,0xE0,0x00,0xE0,0x20,0x20,0xE0,0x00,0xE0,0x20,0x20,0xFC,0x00,
  0xE0,0x20,0x20,0xFC,0x00,0xE0,0x20,0x20,0xE0,0x00,0xE0,0x20,0x20,0xFC,0x00,0x00,
  0x00,0x08,0x08,0xF8,0x08,0x08,0x00,0xE0,0x00,0xE0,0x00,0xFC,0x20,0x20,0x00,0xE0,
  0x20,0x20,0xE0,0x00,0xE0,0x20,0x20,0x00,0xEC,0x00,0x20,0x20,0x20,0xE0,0x00,0xFC,
  0x00,0xE0,0x20,0x20,0x20,0x00,0x00,0x00,0x00,0x08,0x08,0xC8,0x38,0x00,0x00,0xE0,
  0x20,0x20,0xE0,0x00,0xE0,0x20,0xE0,0x00,0xE0,0x20,0x20,0xE0,0x00,0x00,0x00,0xFF,
  0xFF,0x80,0x80,0x80,0x80,0x80,0x80,0x9C,0x9C,0x88,0x8E,0x83,0x98,0x83,0x8E,0x88,
  0x88,0x9C,0x9C,0x80,0x80,0x87,0x84,0x84,0x84,0x80,0x87,0x80,0x80,0x87,0x80,0x87,
  0x80,0x87,0x84,0x84,0x87,0x80,0x87,0x85,0x85,0x85,0x80,0x87,0x84,0x84,0x87,0x80,
  0x87,0x84,0x84,0x87,0x80,0x87,0x85,0x85,0x85,0x80,0x87,0x84,0x84,0x87,0x80,0x80,
  0x80,0x80,0x80,0x87,0x80,0x80,0x80,0x87,0x84,0x87,0x80,0x87,0x84,0x84,0x80,0x87,
  0x84,0x84,0x87,0x80,0x87,0x80,0x80,0x80,0x87,0x80,0x87,0x85,0x85,0x87,0x80,0x87,
  0x80,0x85,0x85,0x85,0x87,0x80,0x80,0x80,0x80,0x86,0x85,0x84,0x84,0x84,0x80,0x87,
  0x84,0x84,0x87,0x80,0x87,0x80,0x87,0x80,0x87,0x85,0x85,0x85,0x80,0x80,0x80,0xFF]

theorem ssd1306Font_length : ssd1306Font.length = 95 := rfl

theorem length_of_mem_ssd1306Font : ∀ row ∈ ssd1306Font, row.length = 5 := by decide

theorem etxLogo_length : etxLogo.length = 1024 := by decide +kernel

end ExampleKernel.Oled
