import ExampleKernel.Foundation.Transition
import ExampleKernel.GlobalMem.Proc

/-! What `read_proc` and `write_proc` move between the array of the proc file and the user, for any length
and any fault, and what they report of it. -/
namespace ExampleKernel.GlobalMem.ProcCopies
open ExampleKernel.Foundation ExampleKernel.Kernel ExampleKernel.GlobalMem.Proc

/-- How many of `n` bytes a copy moves before it ends. -/
def moved (n : ℕ) : UserCopy → ℕ
  | .done => n
  | .fault k _ => min k n

/-- The return value and the bytes stored in the memory of the user from `buffer` on. The result of
`copy_to_user` is only logged. -/
def readProc (length : ℕ) (copy : UserCopy) (s : State) : (ℤ × List UInt8) × State :=
  if s.globalmemProcLen ≠ 0 then
    ((length,slice s.globalmemProcArray 0 (moved procArraySize copy)),{s with globalmemProcLen := 0})
  else ((0,[]),{s with globalmemProcLen := 1})

/-- The result of `copy_from_user` is only logged, too. -/
def writeProc (buff : ℕ → UInt8) (len : ℕ) (copy : UserCopy) (s : State) : ℤ × State :=
  (len,{s with
    globalmemProcArray := match copy with
      | .fault k zeroed =>
        if k < len then copyFromUserFault s.globalmemProcArray 0 len k buff zeroed
        else blit s.globalmemProcArray 0 len buff
      | .done => blit s.globalmemProcArray 0 len buff})

/-- Without a fault these are the functions whose round trip is studied. -/
theorem readProc_done (buffer : List UInt8) (s : State) :
    (readProc buffer.length .done s).2 = (Proc.readProc buffer s).2 ∧
      (Proc.readProc buffer s).1 = ((readProc buffer.length .done s).1.1.toNat,
        (readProc buffer.length .done s).1.2 ++ buffer.drop (readProc buffer.length .done s).1.2.length) := by
  unfold readProc Proc.readProc
  split_ifs <;> simp [moved]

theorem writeProc_done (buff : ℕ → UInt8) (len : ℕ) (s : State) :
    writeProc buff len .done s = (((Proc.writeProc buff len s).1 : ℤ),(Proc.writeProc buff len s).2) := rfl

inductive Call
  | readProc (length : ℕ) (copy : UserCopy)
  | writeProc (buff : ℕ → UInt8) (len : ℕ) (copy : UserCopy)

def step (s : State) : Call → Option State
  | .readProc length copy => some (readProc length copy s).2
  | .writeProc buff len copy => some (writeProc buff len copy s).2

/-- `ret` is the number of bytes moved, or an error where the copy has failed. -/
def Reports (ret : ℤ) (n : ℕ) (asked : ℕ) : Prop := ret = n ∨ n < asked ∧ ret < 0

/-- A read stores bytes of the array only, and no more than it was asked for. -/
structure ReadProper (s : State) (length : ℕ) (copy : UserCopy) : Prop where
  room : (readProc length copy s).1.2.length ≤ length
  bytes : (readProc length copy s).1.2 <+: slice s.globalmemProcArray 0 procArraySize
  reports : Reports (readProc length copy s).1.1 (readProc length copy s).1.2.length
    (if s.globalmemProcLen ≠ 0 then procArraySize else 0)

/-- A write stores in the 20 bytes of the array only, whatever the memory holds. -/
structure WriteProper (s : State) (buff : ℕ → UInt8) (len : ℕ) (copy : UserCopy) : Prop where
  within : ∀ m i, procArraySize ≤ i →
    (writeProc buff len copy {s with globalmemProcArray := m}).2.globalmemProcArray i = m i
  reports : Reports (writeProc buff len copy s).1 (moved len copy) len

def Proper (s : State) : Call → Prop
  | .readProc length copy => ReadProper s length copy
  | .writeProc buff len copy => WriteProper s buff len copy

/-- A write of at most 20 bytes whose copy succeeds; a read that finds the toggle down, or that asks for
as many bytes as `copy_to_user` moves, which is 20 unless it faults. -/
def Fits (s : State) : Call → Prop
  | .readProc length copy => s.globalmemProcLen = 0 ∨ length = moved procArraySize copy
  | .writeProc _ len copy => len ≤ procArraySize ∧ moved len copy = len

theorem moved_le (n : ℕ) (copy : UserCopy) : moved n copy ≤ n := by
  cases copy with
  | done => exact le_rfl
  | fault k zeroed => exact min_le_right k n

theorem reports_nat_iff (length n asked : ℕ) : Reports length n asked ↔ length = n := by
  unfold Reports
  omega

theorem readProper_iff (s : State) (length : ℕ) (copy : UserCopy) :
    ReadProper s length copy ↔ Fits s (.readProc length copy) := by
  change ReadProper s length copy ↔ s.globalmemProcLen = 0 ∨ length = moved procArraySize copy
  by_cases hup : s.globalmemProcLen ≠ 0
  · have hresult : (readProc length copy s).1 =
        ((length : ℤ),slice s.globalmemProcArray 0 (moved procArraySize copy)) := by
      rw [readProc,if_pos hup]
    rw [or_iff_right hup]
    constructor
    · rintro ⟨-,-,hreports⟩
      rw [hresult] at hreports
      simpa using (reports_nat_iff _ _ _).mp hreports
    · intro hlength
      refine ⟨?_,?_,?_⟩ <;> rw [hresult]
      · rw [slice_length,hlength]
      · rw [slice_split s.globalmemProcArray 0 (moved_le procArraySize copy)]
        exact List.prefix_append _ _
      · rw [slice_length]
        exact .inl (congrArg Nat.cast hlength)
  · have hresult : (readProc length copy s).1 = (0,[]) := by rw [readProc,if_neg hup]
    refine iff_of_true ⟨?_,?_,?_⟩ (.inl (not_not.mp hup)) <;> rw [hresult]
    · exact Nat.zero_le _
    · exact List.nil_prefix
    · exact .inl rfl

theorem writeProper_iff (s : State) (buff : ℕ → UInt8) (len : ℕ) (copy : UserCopy) :
    WriteProper s buff len copy ↔ Fits s (.writeProc buff len copy) := by
  change WriteProper s buff len copy ↔ len ≤ procArraySize ∧ moved len copy = len
  have hreports : Reports (writeProc buff len copy s).1 (moved len copy) len ↔ moved len copy = len :=
    (reports_nat_iff len _ _).trans eq_comm
  have hwithin : moved len copy = len →
      ((∀ m i, procArraySize ≤ i →
        (writeProc buff len copy {s with globalmemProcArray := m}).2.globalmemProcArray i = m i) ↔
          len ≤ procArraySize) := by
    intro hmoved
    have harray : ∀ m, (writeProc buff len copy {s with globalmemProcArray := m}).2.globalmemProcArray =
        blit m 0 len buff := by
      intro m
      cases copy with
      | done => rfl
      | fault k zeroed => exact if_neg (min_eq_right_iff.mp hmoved).not_gt
    rw [← blit_within_iff 0 procArraySize len buff]
    refine forall_congr' fun m => forall_congr' fun i => ?_
    rw [harray,or_iff_right (Nat.not_lt_zero i),Nat.zero_add]
  constructor
  · rintro ⟨hin,hrep⟩
    exact ⟨(hwithin (hreports.mp hrep)).mp hin,hreports.mp hrep⟩
  · rintro ⟨hlen,hmoved⟩
    exact ⟨(hwithin hmoved).mpr hlen,hreports.mpr hmoved⟩

/-- In every sequence of calls, all of them stay inside both buffers and report what they have moved
exactly when each of them fits. -/
theorem calls_proper_iff (s : State) (calls : List Call) : Meets step Proper s calls ↔ Meets step Fits s calls := by
  refine meets_congr (I := fun _ => True) (fun _ _ _ _ _ => trivial) (fun s c _ => ?_) trivial calls
  cases c with
  | readProc length copy => exact readProper_iff s length copy
  | writeProc buff len copy => exact writeProper_iff s buff len copy

/-- A read of four bytes stores twenty. -/
theorem read_overflows : ¬ ∀ calls, Meets step Proper Proc.load calls := by
  intro h
  have hroom := (h [.readProc 4 .done]).1.room
  exact absurd hroom (by decide)

end ExampleKernel.GlobalMem.ProcCopies
