import ExampleKernel.GlobalFifo.Refinement
import ExampleKernel.Foundation.CopyOrder

/-! The `memcpy` that removes delivered bytes from the array. `memmove` in the model moves them in
ascending order; `memcpy` may use any order, and is defined only for ranges without a common byte. -/
namespace ExampleKernel.GlobalFifo
open ExampleKernel.Foundation ExampleKernel.Kernel

/-- Number of bytes that stay queued behind the delivered ones. -/
def remaining (dev : GlobalfifoDev) (t : Task) : ℕ := (dev.currentLen.toUInt64-t.count).toNat

/-- `memcpy(dev->mem, dev->mem + count, dev->current_len - count)` copies between ranges without a
common byte, and whichever order it copies in, the front of the array is the old remainder. -/
structure ShiftDefined (dev : GlobalfifoDev) (t : Task) : Prop where
  apart : Apart 0 t.count.toNat (remaining dev t)
  anyOrder : ∀ order, order.Perm (List.range (remaining dev t)) →
    slice (copyInOrder 0 t.count.toNat dev.mem order) 0 (remaining dev t) =
      slice dev.mem t.count.toNat (remaining dev t)

/-- What the statement stores is the copy in ascending order. -/
theorem shift_ascending {nonblock : Bool} {n : UInt64} {dev : GlobalfifoDev} {t t' : Task} {c : Choice}
    {e : Effect} (hcall : t.call = .read nonblock n) (hpc : t.pc = .shift)
    (h : statement dev t c = some (t',e)) :
    e.memAfter dev.mem = copyInOrder 0 t.count.toNat dev.mem (List.range (remaining dev t)) := by
  simp only [statement, hcall, globalfifoRead, hpc, Option.some.injEq, Prod.mk.injEq] at h
  rw [← h.2,copyInOrder_eq_blit dev.mem (readsFirst_range (Nat.zero_le _) _) (List.Perm.refl _)]
  rfl

theorem shiftDefined_iff_apart {dev : GlobalfifoDev} {t : Task} :
    ShiftDefined dev t ↔ Apart 0 t.count.toNat (remaining dev t) := by
  refine ⟨ShiftDefined.apart,fun h => ⟨h,fun order horder => ?_⟩⟩
  rw [copyInOrder_eq_blit dev.mem (h.readsFirst horder) horder,slice_blit_self]
  exact slice_congr fun i _ => by rw [Nat.zero_add]

/-- A descending `memcpy` of overlapping ranges delivers a byte twice, unless it is there by chance. -/
theorem shift_descending {dev : GlobalfifoDev} {t : Task} (hk : 0 < t.count.toNat)
    (hover : t.count.toNat < remaining dev t) :
    copyInOrder 0 t.count.toNat dev.mem (List.range (remaining dev t)).reverse
      (remaining dev t-1-t.count.toNat) = dev.mem (t.count.toNat+(remaining dev t-1)) := by
  have h := copyInOrder_descending dev.mem hk (by omega : t.count.toNat ≤ remaining dev t-1)
  rwa [Nat.sub_add_cancel (by omega)] at h

/-- At the shift, the count is the requested one clamped to the length of the queue. -/
theorem count_at_shift {acts : List Act} {s : Sys} (h : Reached acts s) {p : Pid} {nonblock : Bool}
    {n : UInt64} (hcall : (s.task p).call = .read nonblock n) (hpc : (s.task p).pc = .shift) :
    (s.task p).count.toNat = min n.toNat s.dev.currentLen.toNat := by
  have hs := inv_reached h
  have hframed := hs.data.framed p
  have hseen := hs.undisturbed p
  simp only [Task.framed, hcall, Task.progress, hpc] at hframed
  simp only [Task.undisturbed, hcall, hpc] at hseen
  rw [hseen]
  exact hframed.1

/-- In every reachable state and for every requested count, the `memcpy` of `globalfifo_read` is
defined exactly when the count is at least half of the queued bytes. -/
theorem shift_defined_iff {acts : List Act} {s : Sys} (h : Reached acts s) {p : Pid} {nonblock : Bool}
    {n : UInt64} (hcall : (s.task p).call = .read nonblock n) (hpc : (s.task p).pc = .shift) :
    ShiftDefined s.dev (s.task p) ↔ s.dev.currentLen.toNat ≤ 2*n.toNat := by
  have hcount := count_at_shift h hcall hpc
  have hrest : remaining s.dev (s.task p) = s.dev.currentLen.toNat-(s.task p).count.toNat :=
    toUInt64_sub_toNat (by omega)
  rw [shiftDefined_iff_apart,apart_iff,hrest,hcount]
  omega

/-- Two bytes are queued and one of them is read. -/
theorem shift_defined_iff_half : ∃ acts s, Reached acts s ∧ (s.task 2).pc = .shift ∧
    s.dev.currentLen = 2 ∧ ShiftDefined s.dev (s.task 2) := by
  obtain ⟨s,hs,hp⟩ := exists_of_run_any step load
    (.call 1 (.write false 2 fun _ => 7) :: List.replicate 12 (.run 1 .done) ++
      .call 2 (.read false 1) :: List.replicate 5 (.run 2 .done))
    (fun s => match (s.task 2).call with
      | .read false n => n = 1 ∧ (s.task 2).pc = .shift ∧ s.dev.currentLen = 2
      | _ => false) (by decide)
  split at hp <;> (try contradiction)
  rename_i n hcall
  obtain ⟨rfl,hpc,hlen⟩ := of_decide_eq_true hp
  exact ⟨_,s,hs,hpc,hlen,(shift_defined_iff hs hcall hpc).mpr (by rw [hlen]; decide)⟩

/-- Three bytes are queued and one is read: `mem[1]` is both read and written, and a `memcpy` that
copies in descending order loses the second byte. -/
theorem shift_overlaps : ∃ acts s, Reached acts s ∧ (s.task 2).pc = .shift ∧
    (s.task 2).count = 1 ∧ remaining s.dev (s.task 2) = 2 ∧ ¬ ShiftDefined s.dev (s.task 2) ∧
    slice s.dev.mem 1 2 = [2,3] ∧ slice (copyInOrder 0 1 s.dev.mem [1,0]) 0 2 = [3,3] := by
  obtain ⟨s,hs,hp⟩ := exists_of_run_any step load
    (.call 1 (.write false 3 fun i => [1,2,3].getD i 0) :: List.replicate 12 (.run 1 .done) ++
      .call 2 (.read false 1) :: List.replicate 5 (.run 2 .done))
    (fun s => (s.task 2).pc = .shift ∧ (s.task 2).count = 1 ∧ remaining s.dev (s.task 2) = 2 ∧
      slice s.dev.mem 1 2 = [2,3] ∧ slice (copyInOrder 0 1 s.dev.mem [1,0]) 0 2 = [3,3]) (by decide)
  obtain ⟨hpc,hcount,hrest,hold,hnew⟩ := of_decide_eq_true hp
  refine ⟨_,s,hs,hpc,hcount,hrest,fun h => ?_,hold,hnew⟩
  have happart := h.apart
  rw [hcount,hrest,apart_iff] at happart
  exact absurd happart (by decide)

end ExampleKernel.GlobalFifo
