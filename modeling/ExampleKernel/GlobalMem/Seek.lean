import ExampleKernel.GlobalMem.Cursors
import ExampleKernel.GlobalMem.Multi

/-! `globalmem_llseek` against seeking over the integers: one branch compares through a 32-bit cast,
the other after a 64-bit addition. -/
namespace ExampleKernel.GlobalMem
open ExampleKernel.Foundation ExampleKernel.Kernel

/-- Seeking with integers that have no width: to `offset` from the start or from the position, if
that is inside the device or at its end. -/
def seek (fpos offset orig : ℤ) : ℤ × ℤ :=
  let target := if orig = 0 then offset else fpos+offset
  if (orig = 0 ∨ orig = 1) ∧ 0 ≤ target ∧ target ≤ globalmemSize then (target,target) else (fpos,-einval)

/-- An offset above `unsigned int` that the cast turns into a position. -/
def Truncated (offset orig : ℤ) : Prop := orig = 0 ∧ 2^32 ≤ offset ∧ unsignedInt offset ≤ globalmemSize

instance (offset orig : ℤ) : Decidable (Truncated offset orig) := inferInstanceAs (Decidable (_ ∧ _ ∧ _))

theorem unsignedInt_of_fits {offset : ℤ} (h : 0 ≤ offset) (hlt : offset < 2^32) :
    (unsignedInt offset : ℤ) = offset := by
  unfold unsignedInt
  omega

section Branches
variable {fpos offset : ℤ}

/-- From the start, the offset is compared without its upper half. -/
theorem globalmemLlseek_set : globalmemLlseek fpos offset 0 = seek fpos offset 0 ↔ ¬ Truncated offset 0 := by
  unfold globalmemLlseek seek Truncated
  simp only [if_true, true_or, true_and]
  by_cases hneg : offset < 0
  · have hout : ¬ (0 ≤ offset ∧ offset ≤ (globalmemSize : ℤ)) := by omega
    rw [if_pos hneg,if_neg hout]
    exact iff_of_true rfl (by omega)
  · rw [if_neg hneg]
    have hsize : globalmemSize = 4096 := rfl
    by_cases hfits : offset < 2^32
    · have hcast := unsignedInt_of_fits (not_lt.mp hneg) hfits
      refine iff_of_true ?_ (by omega)
      split_ifs with hhigh hin hin
      · omega
      · rfl
      · rw [hcast]
      · omega
    · have hout : ¬ (0 ≤ offset ∧ offset ≤ (globalmemSize : ℤ)) := by omega
      rw [if_neg hout]
      split_ifs with hhigh
      · exact iff_of_true rfl (by omega)
      · refine iff_of_false (fun h => ?_) (by omega)
        have hret := congrArg Prod.snd h
        simp only [einval] at hret
        omega

/-- From the position, a sum that overflows is negative. -/
theorem globalmemLlseek_cur (hpos : 0 ≤ fpos ∧ fpos ≤ globalmemSize) (hoff : -2^63 ≤ offset ∧ offset < 2^63) :
    globalmemLlseek fpos offset 1 = seek fpos offset 1 := by
  have hsize : globalmemSize = 4096 := rfl
  unfold globalmemLlseek seek
  simp only [one_ne_zero, if_false, if_true, or_true, true_and]
  by_cases hfits : fpos+offset < 2^63
  · rw [loffT_of_lt (by omega) hfits]
    split_ifs <;> first | rfl | omega
  · have hwrap : loffT (fpos+offset) = fpos+offset-2^64 := by
      unfold loffT
      rw [Int.bmod_eq_emod]
      split_ifs <;> omega
    rw [hwrap]
    split_ifs <;> first | rfl | omega

end Branches

/-- Both copies of `globalmem_llseek` seek as over the integers, for every position in the device,
every offset and every whence, exactly when the cast does not hide an offset that is too large. -/
theorem llseek_accepts_iff {fpos offset : ℤ} (orig : ℤ) (hpos : 0 ≤ fpos ∧ fpos ≤ globalmemSize)
    (hoff : -2^63 ≤ offset ∧ offset < 2^63) :
    (globalmemLlseek fpos offset orig = seek fpos offset orig ∧
      Multi.globalmemLlseek fpos offset orig = seek fpos offset orig) ↔ ¬ Truncated offset orig := by
  have hcopy : Multi.globalmemLlseek fpos offset orig = globalmemLlseek fpos offset orig := rfl
  rw [hcopy,and_self_iff]
  by_cases hset : orig = 0
  · subst hset; exact globalmemLlseek_set
  · refine iff_of_true ?_ (fun h => hset h.1)
    by_cases hcur : orig = 1
    · subst hcur; exact globalmemLlseek_cur hpos hoff
    · simp [globalmemLlseek, seek, hset, hcur]

/-- To the end of the device, from its start and from its middle. -/
theorem llseek_accepts_iff_end : globalmemLlseek 7 4096 0 = (4096,4096) ∧ globalmemLlseek 4000 96 1 = (4096,4096) := by
  have hset := (@llseek_accepts_iff 7 4096 0 (by decide) (by decide)).mpr (by decide)
  have hcur := (@llseek_accepts_iff 4000 96 1 (by decide) (by decide)).mpr (by decide)
  exact ⟨hset.1,hcur.1⟩

/-- Four gigabytes and five bytes from the start is taken for position 5. -/
theorem llseek_truncates : globalmemLlseek 100 (2^32+5) 0 = (5,5) ∧ seek 100 (2^32+5) 0 = (100,-einval) ∧
    Multi.globalmemLlseek 100 (2^32+5) 0 ≠ seek 100 (2^32+5) 0 := by
  decide

end ExampleKernel.GlobalMem
