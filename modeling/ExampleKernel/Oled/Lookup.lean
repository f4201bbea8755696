import ExampleKernel.Oled.SameProgram

/-! Where `ETX_SSD1306_PrintChar` and `SSD1306_PrintChar` read the font. Both have no result when they
read outside its rows or columns. -/
namespace ExampleKernel.Oled
open ExampleKernel.Foundation

namespace Spi

/-- The wrapped index is a row of the font for its characters only. -/
theorem index_lt_iff (c : UInt8) : (c-0x20).toNat < ssd1306Font.length ↔ 0x20 ≤ c ∧ c ≤ 0x7E := by
  have hc := c.toNat_lt
  rw [ssd1306Font_length,UInt8.le_iff_toNat_le,UInt8.le_iff_toNat_le,UInt8.toNat_sub]
  simp only [UInt8.reduceToNat]
  omega

section
variable {β : Type} (send : β → Wire → β) (s : Ssd1306 β)

/-- Past the table the first column that is read is outside. -/
theorem printChar_outside {c : UInt8} (hc : c ≠ newline) (h : ssd1306Font[(c-0x20).toNat]? = none) :
    printChar send s c = none := by
  have hloop : List.range fontSize = 0 :: [1,2,3,4] := rfl
  unfold printChar
  simp only [hc, or_false, ne_eq, not_false_eq_true, if_true, hloop, h, List.foldlM_cons]
  rfl

theorem printChar_isSome_iff (c : UInt8) : (printChar send s c).isSome ↔ Printable c := by
  constructor
  · intro h
    by_cases hnl : c = newline
    · exact .inl hnl
    · refine .inr ((index_lt_iff c).mp ?_)
      by_contra hout
      rw [printChar_outside send s hnl (List.getElem?_eq_none (Nat.le_of_not_lt hout))] at h
      contradiction
  · intro hc
    obtain ⟨t,ht⟩ := printChar_total send s hc
    rw [ht]
    rfl

theorem string_isSome_iff (str : List UInt8) :
    (string send s str).isSome ↔ ∀ c ∈ str.takeWhile (· ≠ 0), Printable c := by
  induction str generalizing s with
  | nil => simp [string]
  | cons c str ih =>
    rw [string,List.takeWhile_cons]
    by_cases hc : c = 0
    · simp [hc]
    · rw [if_neg hc,if_pos (by simpa using hc),List.forall_mem_cons,← printChar_isSome_iff send s c]
      cases hprint : printChar send s c with
      | none => simp
      | some t => simpa using ih t

end

end Spi

/-- For every text and every cursor, all reads of the font by either driver are inside the table exactly
when the characters before the terminator are newlines or from the space to the tilde. -/
theorem lookups_inside_iff {β γ : Type} (sendSpi : β → Spi.Wire → β) (send : γ → List UInt8 → γ)
    (s : Spi.Ssd1306 β) (t : I2c.Ssd1306 γ) (str : List UInt8) :
    ((Spi.string sendSpi s str).isSome ↔ ∀ c ∈ str.takeWhile (· ≠ 0), Spi.Printable c) ∧
      ((I2c.string send t str).isSome ↔ ∀ c ∈ str.takeWhile (· ≠ 0), Spi.Printable c) := by
  refine ⟨Spi.string_isSome_iff sendSpi s str,?_⟩
  -- an SPI driver with the same cursor, on a bus that does not matter
  let u : Spi.Ssd1306 β := ⟨t.lineNum,t.cursorPos,s.bus⟩
  have hsame : I2c.Same (fun _ _ => True) u t := ⟨rfl,rfl,trivial⟩
  have hrel : Option.Rel (I2c.Same fun _ _ => True) (Spi.string sendSpi u str) (I2c.string send t str) :=
    I2c.string_same (fun _ _ _ _ _ => trivial) hsame str
  rw [← isSome_of_rel hrel,Spi.string_isSome_iff]

/-- A tab wraps to row 233. -/
theorem tab_outside_font : ¬ ∀ (s : Spi.Ssd1306 Unit) (str : List UInt8),
    (Spi.string (fun b _ => b) s str).isSome := by
  intro h
  have htab := (Spi.string_isSome_iff _ _ _).mp (h ⟨0,0,()⟩ [0x09]) 0x09 (by decide)
  exact absurd htab (by simp [Spi.Printable, Spi.newline])

end ExampleKernel.Oled
