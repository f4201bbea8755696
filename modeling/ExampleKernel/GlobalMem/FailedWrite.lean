import ExampleKernel.GlobalMem.Multi

/-! What a `globalmem_write` that fails has done already, in globalmem and in multi_globalmem. Both copy
from the user straight into the array of the device. -/
namespace ExampleKernel.GlobalMem
open ExampleKernel.Foundation ExampleKernel.Kernel

/-- A copy of `n` bytes to `off` has stopped after `k` of them; the rest is as it was, or zero. -/
structure Partial (mem mem' : ℕ → UInt8) (off n k : ℕ) (buf : ℕ → UInt8) (zeroed : Bool) : Prop where
  copied : ∀ i, i < k → mem' (off+i) = buf i
  rest : ∀ i, k ≤ i → i < n → mem' (off+i) = if zeroed then 0 else mem (off+i)
  outside : ∀ a, a < off ∨ off+n ≤ a → mem' a = mem a

/-- The bytes that were copied, and the zeros, were there before. -/
def Unnoticed (mem : ℕ → UInt8) (off n k : ℕ) (buf : ℕ → UInt8) (zeroed : Bool) : Prop :=
  (∀ i, i < k → buf i = mem (off+i)) ∧ (zeroed = true → ∀ i, k ≤ i → i < n → mem (off+i) = 0)

theorem copyFromUserFault_stops (mem : ℕ → UInt8) (off : ℕ) {n k : ℕ} (buf : ℕ → UInt8) (zeroed : Bool)
    (hk : k ≤ n) : Partial mem (copyFromUserFault mem off n k buf zeroed) off n k buf zeroed := by
  refine ⟨fun i hi => ?_,fun i hki hin => ?_,fun a ha => copyFromUserFault_outside mem buf zeroed hk ha⟩
  · have hcopied : blit mem off k buf (off+i) = buf i := blit_inside mem off k buf hi
    unfold copyFromUserFault
    split_ifs
    · rw [blit_outside _ _ _ _ (by omega),hcopied]
    · exact hcopied
  · unfold copyFromUserFault
    split_ifs
    · obtain ⟨j,rfl⟩ := Nat.exists_eq_add_of_le hki
      rw [← Nat.add_assoc]
      exact blit_inside _ (off+k) (n-k) (fun _ => 0) (by omega)
    · exact blit_outside mem off k buf (by omega)

theorem partial_eq_iff {mem mem' : ℕ → UInt8} {off n k : ℕ} {buf : ℕ → UInt8} {zeroed : Bool}
    (h : Partial mem mem' off n k buf zeroed) : mem' = mem ↔ Unnoticed mem off n k buf zeroed := by
  obtain ⟨hcopied,hrest,houtside⟩ := h
  constructor
  · rintro rfl
    refine ⟨fun i hi => (hcopied i hi).symm,fun hzeroed i hki hin => ?_⟩
    rw [hrest i hki hin,if_pos hzeroed]
  · rintro ⟨hsame,hzero⟩
    funext a
    by_cases ha : a < off ∨ off+n ≤ a
    · exact houtside a ha
    · obtain ⟨i,rfl⟩ := Nat.exists_eq_add_of_le (Nat.le_of_not_lt (not_or.mp ha).1)
      by_cases hi : i < k
      · rw [hcopied i hi,hsame i hi]
      · rw [hrest i (by omega) (by omega)]
        split_ifs with hzeroed
        · exact (hzero hzeroed i (by omega) (by omega)).symm
        · rfl

/-- How many bytes a write of `size` at `ppos` asks `copy_from_user` for. -/
def asked (w size : ℕ) (ppos : ℤ) : ℕ := clampCount (unsignedInt size) (unsignedLong w ppos)

/-- A write at `ppos` to the array at `base` has stopped halfway: the position is as before, and the memory
is as before exactly if what was stored makes no difference. -/
structure Halfway (w size : ℕ) (buf : ℕ → UInt8) (ppos : ℤ) (base : ℕ) (mem mem' : ℕ → UInt8) (ppos' : ℤ)
    (k : ℕ) (zeroed : Bool) : Prop where
  short : k < asked w size ppos
  fits : unsignedLong w ppos+asked w size ppos ≤ globalmemSize
  position : ppos' = ppos
  stored : Partial mem mem' (base+unsignedLong w ppos) (asked w size ppos) k buf zeroed
  untouched : mem' = mem ↔ Unnoticed mem (base+unsignedLong w ppos) (asked w size ppos) k buf zeroed

theorem efault_of_intOf {n : ℕ} (h : n ≤ globalmemSize) : intOf n ≠ -efault := by
  have hn : n ≤ 4096 := h
  rw [intOf_of_lt (by omega),efault]
  omega

theorem clampCount_le_size {p : ℕ} (h : ¬ p ≥ globalmemSize) (size : ℕ) :
    p+clampCount (unsignedInt size) p ≤ globalmemSize := clampCount_le _ (Nat.lt_of_not_le h)

theorem globalmemWrite_failed {w size dev : ℕ} {L : Multi.Layout} {mem buf : ℕ → UInt8} {ppos : ℤ}
    {copy : UserCopy} (h : (Multi.globalmemWrite w L mem dev size buf ppos copy).2.ret = -efault) :
    ∃ k zeroed, copy = .fault k zeroed ∧ k < asked w size ppos ∧
      unsignedLong w ppos+asked w size ppos ≤ globalmemSize ∧ Multi.globalmemWrite w L mem dev size buf ppos copy =
        (copyFromUserFault mem (L.mem dev+unsignedLong w ppos) (asked w size ppos) k buf zeroed,⟨-efault,ppos,[]⟩) := by
  unfold Multi.globalmemWrite asked at *
  by_cases hp : unsignedLong w ppos ≥ globalmemSize
  · simp [hp, efault] at h
  · have hle := clampCount_le_size hp size
    have hret := efault_of_intOf ((Nat.le_add_left _ _).trans hle)
    simp only [hp, if_false] at h ⊢
    cases copy with
    | done =>
      dsimp only at h
      exact (hret h).elim
    | fault k zeroed =>
      by_cases hk : k < clampCount (unsignedInt size) (unsignedLong w ppos)
      · exact ⟨k,zeroed,rfl,hk,hle,by simp only [if_pos hk]⟩
      · simp only [if_neg hk] at h
        exact (hret h).elim

theorem failed_halfway {w size dev : ℕ} {L : Multi.Layout} {mem buf : ℕ → UInt8} {ppos : ℤ} {copy : UserCopy}
    (h : (Multi.globalmemWrite w L mem dev size buf ppos copy).2.ret = -efault) :
    ∃ k zeroed, copy = .fault k zeroed ∧ Halfway w size buf ppos (L.mem dev) mem
      (Multi.globalmemWrite w L mem dev size buf ppos copy).1
      (Multi.globalmemWrite w L mem dev size buf ppos copy).2.ppos k zeroed := by
  obtain ⟨k,zeroed,hcopy,hk,hfits,heq⟩ := globalmemWrite_failed h
  have hstops := copyFromUserFault_stops mem (L.mem dev+unsignedLong w ppos) buf zeroed hk.le
  rw [heq]
  exact ⟨k,zeroed,hcopy,hk,hfits,rfl,hstops,partial_eq_iff hstops⟩

/-- A write that returns `-EFAULT` leaves the position and everything but the bytes that it asked for. Of
these the first `k` are those of the user, and each other one is what it was, or zero. The memory is
untouched exactly if this makes no difference. -/
theorem failed_write_halfway (w size : ℕ) (buf : ℕ → UInt8) (ppos : ℤ) (copy : UserCopy) :
    (∀ g, (globalmemWrite w g size buf ppos copy).2.ret = -efault →
      (∃ k zeroed, copy = .fault k zeroed ∧ Halfway w size buf ppos 0 g.mem
        (globalmemWrite w g size buf ppos copy).1.mem (globalmemWrite w g size buf ppos copy).2.ppos k zeroed) ∧
      (globalmemWrite w g size buf ppos copy).1 = {g with mem := (globalmemWrite w g size buf ppos copy).1.mem}) ∧
    (∀ L mem dev, (Multi.globalmemWrite w L mem dev size buf ppos copy).2.ret = -efault →
      ∃ k zeroed, copy = .fault k zeroed ∧ Halfway w size buf ppos (L.mem dev) mem
        (Multi.globalmemWrite w L mem dev size buf ppos copy).1
        (Multi.globalmemWrite w L mem dev size buf ppos copy).2.ppos k zeroed) := by
  refine ⟨fun g h => ?_,fun L mem dev h => failed_halfway h⟩
  rw [Multi.globalmemWrite_flat] at h ⊢
  exact ⟨failed_halfway h,rfl⟩

/-- The rest of the array is zero already, and the one byte that was copied is too. -/
theorem failed_write_halfway_zeros :
    (globalmemWrite 64 load.g 9 (fun i => if i = 0 then 0 else 5) 4090 (.fault 1 true)).1.mem = load.g.mem := by
  obtain ⟨⟨k,zeroed,hcopy,hhalf⟩,-⟩ :=
    (failed_write_halfway 64 9 (fun i => if i = 0 then 0 else 5) 4090 (.fault 1 true)).1 load.g (by decide)
  obtain ⟨rfl,rfl⟩ := UserCopy.fault.inj hcopy
  refine hhalf.untouched.mpr ⟨fun i hi => ?_,fun _ _ _ _ => rfl⟩
  obtain rfl : i = 0 := by omega
  rfl

/-- Of two bytes the first is copied before the fault. -/
theorem failed_write_keeps_byte : ¬ ∀ (calls : List Call) s, run (step 64) load calls = some s →
    ∀ size buf ppos copy, (globalmemWrite 64 s.g size buf ppos copy).2.ret = -efault →
      ∀ i, i < globalmemSize → (globalmemWrite 64 s.g size buf ppos copy).1.mem i = s.g.mem i := by
  intro h
  exact absurd (h [] load rfl 2 (fun _ => 7) 0 (.fault 1 false) (by decide) 0 (by decide)) (by decide)

end ExampleKernel.GlobalMem
