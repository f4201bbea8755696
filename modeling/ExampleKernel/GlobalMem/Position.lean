import ExampleKernel.GlobalMem.Cursors
import ExampleKernel.GlobalMem.Multi

/-! Where `globalmem_read` and `globalmem_write` transfer, against the same over the integers: the 64-bit
position passes through an `unsigned long` of `w` bits and the size through 32 bits. -/
namespace ExampleKernel.GlobalMem
open ExampleKernel.Foundation ExampleKernel.Kernel

/-- How many bytes there are to transfer at a position. -/
def exactCount (size : ℕ) (ppos : ℤ) : ℕ := (min (size : ℤ) (globalmemSize-ppos)).toNat

/-- The indices of the array that a transfer is about. -/
def InRange (size : ℕ) (ppos : ℤ) (i : ℕ) : Prop := ppos ≤ i ∧ (i : ℤ) < ppos+size ∧ i < globalmemSize

/-- A read and a write, of an array at `base`, that touch the bytes asked for only, and move all of
them unless the copy faults. -/
structure Placed (size : ℕ) (ppos : ℤ) (base : ℕ) (read : (ℕ → UInt8) → UserCopy → IoResult)
    (write : (ℕ → UInt8) → (ℕ → UInt8) → UserCopy → (ℕ → UInt8) × IoResult) : Prop where
  reads : ∀ mem mem' copy, (∀ i, InRange size ppos i → mem' (base+i) = mem (base+i)) →
    read mem' copy = read mem copy
  read : ∀ mem, read mem .done =
    ⟨exactCount size ppos,ppos+exactCount size ppos,slice mem (base+ppos.toNat) (exactCount size ppos)⟩
  writes : ∀ mem buf copy a, (∀ i, InRange size ppos i → a ≠ base+i) → (write mem buf copy).1 a = mem a
  write : ∀ mem buf, write mem buf .done = (blit mem (base+ppos.toNat) (exactCount size ppos) buf,
    ⟨exactCount size ppos,ppos+exactCount size ppos,[]⟩)

/-- The position fits into the word, or what is left of it lies behind the array, or no byte is asked for. -/
def Kept (w size : ℕ) (ppos : ℤ) : Prop := ppos < 2^w ∨ (globalmemSize : ℤ) ≤ ppos%2^w ∨ size = 0

theorem unsignedInt_of_size {size : ℕ} (hsize : size ≤ 0x7ffff000) : unsignedInt size = size := by
  unfold unsignedInt
  omega

theorem unsignedLong_cast (w : ℕ) (ppos : ℤ) : (unsignedLong w ppos : ℤ) = ppos%2^w :=
  Int.toNat_of_nonneg (Int.emod_nonneg _ (by positivity))

theorem clampCount_eq (count p : ℕ) : clampCount count p = min count (globalmemSize-p) := by
  unfold clampCount
  split_ifs <;> omega

section Transfer
variable {w size : ℕ} {ppos : ℤ} {L : Multi.Layout} {dev : ℕ}

/-- Behind the array nothing is transferred. -/
theorem placed_of_behind (hp : globalmemSize ≤ unsignedLong w ppos) (hexact : exactCount size ppos = 0) :
    Placed size ppos (L.mem dev) (fun mem copy => Multi.globalmemRead w L mem dev size ppos copy)
      (fun mem buf copy => Multi.globalmemWrite w L mem dev size buf ppos copy) := by
  have hread : ∀ mem copy, Multi.globalmemRead w L mem dev size ppos copy = ⟨0,ppos,[]⟩ :=
    fun mem copy => if_pos hp
  have hwrite : ∀ mem buf copy, Multi.globalmemWrite w L mem dev size buf ppos copy = (mem,⟨0,ppos,[]⟩) :=
    fun mem buf copy => if_pos hp
  refine ⟨fun mem mem' copy _ => ?_,fun mem => ?_,fun mem buf copy a _ => ?_,fun mem buf => ?_⟩
  · rw [hread,hread]
  · rw [hread,hexact]; simp
  · rw [hwrite]
  · rw [hwrite,hexact]; simp

/-- Inside the array the transfer is as over the integers if the count is, and the position if it matters. -/
theorem placed_of_inside (hp : unsignedLong w ppos < globalmemSize)
    (hcount : clampCount (unsignedInt size) (unsignedLong w ppos) = exactCount size ppos)
    (hplace : exactCount size ppos = 0 ∨ unsignedLong w ppos = ppos.toNat) (hlow : 0 ≤ ppos) (hhigh : ppos < 2^63) :
    Placed size ppos (L.mem dev) (fun mem copy => Multi.globalmemRead w L mem dev size ppos copy)
      (fun mem buf copy => Multi.globalmemWrite w L mem dev size buf ppos copy) := by
  have hsize : globalmemSize = 4096 := rfl
  have hle : exactCount size ppos ≤ 4096 := by unfold exactCount; omega
  have hret : intOf (exactCount size ppos) = exactCount size ppos := intOf_of_lt (by omega)
  have hppos : loffT (ppos+exactCount size ppos) = ppos+exactCount size ppos := by
    refine loffT_of_lt (by omega) ?_
    obtain hzero | hfits := hplace <;> omega
  -- a byte that is transferred is one that the transfer is about
  have hin : ∀ i, i < exactCount size ppos → InRange size ppos (unsignedLong w ppos+i) := by
    intro i hi
    have hfits := hplace.resolve_left (by omega)
    unfold InRange exactCount at *
    omega
  refine ⟨fun mem mem' copy hsame => ?_,fun mem => ?_,fun mem buf copy a ha => ?_,fun mem buf => ?_⟩
  · have hslice : ∀ k, k ≤ exactCount size ppos →
        slice mem' (L.mem dev+unsignedLong w ppos) k = slice mem (L.mem dev+unsignedLong w ppos) k := by
      intro k hk
      refine slice_congr fun i hi => ?_
      rw [Nat.add_assoc]
      exact hsame _ (hin i (by omega))
    simp only [Multi.globalmemRead, if_neg hp.not_ge, hcount]
    cases copy with
    | done => simp only [hslice _ le_rfl]
    | fault k zeroed =>
      dsimp only
      split_ifs with hk
      · rw [hslice k hk.le]
      · rw [hslice _ le_rfl]
  · simp only [Multi.globalmemRead, if_neg hp.not_ge, hcount, hret, hppos]
    obtain hzero | hfits := hplace
    · rw [hzero,slice_zero,slice_zero]
    · rw [hfits]
  · have hout : a < L.mem dev+unsignedLong w ppos ∨ L.mem dev+unsignedLong w ppos+exactCount size ppos ≤ a := by
      by_contra hinside
      push Not at hinside
      obtain ⟨i,rfl⟩ := Nat.exists_eq_add_of_le hinside.1
      exact ha _ (hin i (by omega)) (Nat.add_assoc _ _ _)
    simp only [Multi.globalmemWrite, if_neg hp.not_ge, hcount]
    cases copy with
    | done => exact blit_outside _ _ _ _ hout
    | fault k zeroed =>
      dsimp only
      split_ifs with hk
      · exact copyFromUserFault_outside mem buf zeroed hk.le hout
      · exact blit_outside _ _ _ _ hout
  · simp only [Multi.globalmemWrite, if_neg hp.not_ge, hcount, hret, hppos]
    obtain hzero | hfits := hplace
    · rw [hzero,blit_zero,blit_zero]
    · rw [hfits]

/-- A byte is written where the truncated position says, in front of the one asked for. -/
theorem not_placed_of_truncated (hp : unsignedLong w ppos < globalmemSize) (htrunc : (unsignedLong w ppos : ℤ) < ppos)
    (hcount : 0 < unsignedInt size) :
    ¬ Placed size ppos (L.mem dev) (fun mem copy => Multi.globalmemRead w L mem dev size ppos copy)
      (fun mem buf copy => Multi.globalmemWrite w L mem dev size buf ppos copy) := by
  intro h
  have hpos : 0 < clampCount (unsignedInt size) (unsignedLong w ppos) := by
    rw [clampCount_eq]
    omega
  have hkept := h.writes (fun _ => 0) (fun _ => 1) .done (L.mem dev+unsignedLong w ppos) fun i hi heq => by
    obtain ⟨hlow,-⟩ := hi
    omega
  have hstored : (Multi.globalmemWrite w L (fun _ => 0) dev size (fun _ => 1) ppos .done).1
      (L.mem dev+unsignedLong w ppos) = 1 := by
    simp only [Multi.globalmemWrite, if_neg hp.not_ge]
    exact blit_inside _ _ _ _ hpos
  rw [hstored] at hkept
  exact absurd hkept (by decide)

theorem multi_placed_iff (hsize : size ≤ 0x7ffff000) (hlow : 0 ≤ ppos) (hhigh : ppos < 2^63) :
    Placed size ppos (L.mem dev) (fun mem copy => Multi.globalmemRead w L mem dev size ppos copy)
      (fun mem buf copy => Multi.globalmemWrite w L mem dev size buf ppos copy) ↔ Kept w size ppos := by
  have hcast := unsignedLong_cast w ppos
  have hint := unsignedInt_of_size hsize
  have h4096 : globalmemSize = 4096 := rfl
  by_cases hfits : ppos < 2^w
  · refine iff_of_true ?_ (.inl hfits)
    have heq : unsignedLong w ppos = ppos.toNat := by
      rw [Int.emod_eq_of_lt hlow hfits] at hcast
      omega
    by_cases hp : unsignedLong w ppos < globalmemSize
    · refine placed_of_inside hp ?_ (.inr heq) hlow hhigh
      rw [clampCount_eq,hint,heq,exactCount]
      omega
    · exact placed_of_behind (not_lt.mp hp) (by unfold exactCount; omega)
  · have hlt : ppos%2^w < ppos := (Int.emod_lt_of_pos ppos (by positivity)).trans_le (not_lt.mp hfits)
    by_cases hp : unsignedLong w ppos < globalmemSize
    · obtain rfl | hpos := Nat.eq_zero_or_pos size
      · refine iff_of_true ?_ (.inr (.inr rfl))
        have hexact : exactCount 0 ppos = 0 := by unfold exactCount; omega
        refine placed_of_inside hp ?_ (.inl hexact) hlow hhigh
        rw [clampCount_eq,hint,hexact,Nat.zero_min]
      · refine iff_of_false (not_placed_of_truncated hp (by omega) (by omega)) ?_
        rintro (h | h | h) <;> omega
    · refine iff_of_true (placed_of_behind (not_lt.mp hp) ?_) (.inr (.inl (by omega)))
      unfold exactCount
      omega

end Transfer

/-- Both drivers transfer as over the integers, at every position and for every size that the VFS lets
through, exactly when the conversion to `unsigned long` keeps what matters of the position. -/
theorem transfers_placed_iff (w : ℕ) {size : ℕ} {ppos : ℤ} (hsize : size ≤ 0x7ffff000) (hlow : 0 ≤ ppos)
    (hhigh : ppos < 2^63) :
    (∀ g : Globalmem, Placed size ppos 0 (fun mem copy => (globalmemRead w {g with mem := mem} size ppos copy).2)
      (fun mem buf copy => ((globalmemWrite w {g with mem := mem} size buf ppos copy).1.mem,
        (globalmemWrite w {g with mem := mem} size buf ppos copy).2)) ↔ Kept w size ppos) ∧
    (∀ L dev, Placed size ppos (L.mem dev) (fun mem copy => Multi.globalmemRead w L mem dev size ppos copy)
      (fun mem buf copy => Multi.globalmemWrite w L mem dev size buf ppos copy) ↔ Kept w size ppos) := by
  refine ⟨fun g => ?_,fun L dev => multi_placed_iff hsize hlow hhigh⟩
  simp only [Multi.globalmemRead_flat, Multi.globalmemWrite_flat]
  exact multi_placed_iff (L := Multi.flat) hsize hlow hhigh

/-- With 64 bits the last position of all is kept, and so is one in the middle with 32. -/
theorem transfers_placed_wide :
    (globalmemRead 64 load.g 7 (2^63-1) .done).2 = ⟨0,2^63-1,[]⟩ ∧
    (globalmemRead 32 load.g 7 4093 .done).2 = ⟨3,4096,[0,0,0]⟩ := by
  have hwide := ((transfers_placed_iff 64 (by decide : 7 ≤ 0x7ffff000) (by decide : (0 : ℤ) ≤ 2^63-1)
    (by decide)).1 load.g).mpr (.inl (by decide))
  have hsmall := ((transfers_placed_iff 32 (by decide : 7 ≤ 0x7ffff000) (by decide : (0 : ℤ) ≤ 4093)
    (by decide)).1 load.g).mpr (.inl (by decide))
  exact ⟨hwide.read load.g.mem,hsmall.read load.g.mem⟩

/-- With 32 bits a write four gigabytes behind the array stores its byte at the start of it. -/
theorem truncated_position : ¬ ∀ (size : ℕ) (ppos : ℤ), size ≤ 0x7ffff000 → 0 ≤ ppos → ppos < 2^63 →
    ∀ i, ¬ InRange size ppos i → (globalmemWrite 32 load.g size (fun _ => 1) ppos .done).1.mem i = load.g.mem i := by
  intro h
  have hzero := h 1 (2^32) (by decide) (by decide) (by decide) 0 fun hin => absurd hin.1 (by decide)
  exact absurd hzero (by decide)

end ExampleKernel.GlobalMem
