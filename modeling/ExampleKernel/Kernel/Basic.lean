import ExampleKernel.Foundation.Buffer

/-! Kernel conventions shared by the drivers: error numbers, the states of a task, copies from
and to user space, and the integer conversions that the C code performs implicitly. -/
namespace ExampleKernel.Kernel
open ExampleKernel.Foundation

abbrev Pid := ℕ
abbrev FileId := ℕ

def eagain : ℤ := 11
def efault : ℤ := 14
def einval : ℤ := 22
def erestartsys : ℤ := 512

instance nontrivialByte : Nontrivial UInt8 := ⟨0,1,by decide⟩

/-- The task states that the drivers set explicitly. -/
inductive TaskState
  | running
  | interruptible
  deriving DecidableEq, Repr

/-- Conversion of an unsigned value to the 32-bit `int` of C. -/
def intOf (n : ℕ) : ℤ := (n : ℤ).bmod (2^32)

theorem intOf_of_lt {n : ℕ} (h : n < 2^31) : intOf n = n := by
  unfold intOf
  exact Int.bmod_eq_of_le (by omega) (by omega)

/-- `if (count > limit) count = limit;` on 64-bit sizes. -/
def clampTo (count limit : UInt64) : UInt64 := if count > limit then limit else count

theorem clampTo_toNat (count limit : UInt64) :
    (clampTo count limit).toNat = min count.toNat limit.toNat := by
  unfold clampTo
  split_ifs with h
  · have : limit.toNat < count.toNat := h
    omega
  · have : ¬ limit.toNat < count.toNat := h
    omega

/-- How a user copy ends: with all bytes moved, or with a fault after `copied` of them. A faulting
`copy_from_user` may zero the rest of its destination. -/
inductive UserCopy
  | done
  | fault (copied : ℕ) (zeroed : Bool)
  deriving DecidableEq, Repr

/-- `copy_from_user` that faults after `k` of `n` bytes, with or without zeroing the rest. -/
def copyFromUserFault (mem : ℕ → UInt8) (off n k : ℕ) (buf : ℕ → UInt8) (zeroed : Bool) : ℕ → UInt8 :=
  if zeroed then blit (blit mem off k buf) (off+k) (n-k) fun _ => 0 else blit mem off k buf

theorem copyFromUserFault_outside (mem buf : ℕ → UInt8) {off n k : ℕ} (zeroed : Bool) (hk : k ≤ n)
    {i : ℕ} (h : i < off ∨ off+n ≤ i) : copyFromUserFault mem off n k buf zeroed i = mem i := by
  unfold copyFromUserFault
  split_ifs
  · rw [blit_outside _ _ _ _ (by omega),blit_outside _ _ _ _ (by omega)]
  · exact blit_outside _ _ _ _ (by omega)

theorem copyFromUserFault_congr {m m' : ℕ → UInt8} (off n k : ℕ) (buf : ℕ → UInt8) (zeroed : Bool) {i : ℕ}
    (h : m i = m' i) : copyFromUserFault m off n k buf zeroed i = copyFromUserFault m' off n k buf zeroed i := by
  have hcopied := blit_congr off h fun j (_ : j < k) => rfl (a := buf j)
  unfold copyFromUserFault
  split_ifs
  · exact blit_congr _ hcopied fun _ _ => rfl
  · exact hcopied

end ExampleKernel.Kernel
