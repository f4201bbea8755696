import Mathlib.Tactic

/-! Windows of a flat memory: reading a window as a list, and overwriting a window. The
memory is a total function, so a store outside the intended object stays visible. -/
namespace ExampleKernel.Foundation

variable {α : Type*}

/-- The `n` cells from `off` on, in order. -/
def slice (m : ℕ → α) (off n : ℕ) : List α := (List.range n).map fun i => m (off+i)

/-- Overwrite the `n` cells from `off` on by the first `n` values of `src`. -/
def blit (m : ℕ → α) (off n : ℕ) (src : ℕ → α) : ℕ → α :=
  fun i => if off ≤ i ∧ i < off+n then src (i-off) else m i

@[simp] theorem slice_length (m : ℕ → α) (off n : ℕ) : (slice m off n).length = n := by
  simp [slice]

@[simp] theorem slice_zero (m : ℕ → α) (off : ℕ) : slice m off 0 = [] := rfl

/-- Consecutive windows concatenate. -/
theorem slice_add (m : ℕ → α) (off k n : ℕ) :
    slice m off (k+n) = slice m off k ++ slice m (off+k) n := by
  simp [slice, List.range_add, Function.comp_def, Nat.add_assoc]

theorem slice_succ (m : ℕ → α) (off n : ℕ) :
    slice m off (n+1) = slice m off n ++ [m (off+n)] := by
  simp [slice, List.range_succ]

/-- A window splits at every position inside it. -/
theorem slice_split (m : ℕ → α) (off : ℕ) {k n : ℕ} (h : k ≤ n) :
    slice m off n = slice m off k ++ slice m (off+k) (n-k) := by
  rw [← slice_add, Nat.add_sub_cancel' h]

theorem slice_congr {m m' : ℕ → α} {off off' n : ℕ}
    (h : ∀ i, i < n → m (off+i) = m' (off'+i)) : slice m off n = slice m' off' n := by
  apply List.map_congr_left
  intro i hi
  exact h i (List.mem_range.mp hi)

theorem blit_inside (m : ℕ → α) (off n : ℕ) (src : ℕ → α) {i : ℕ} (h : i < n) :
    blit m off n src (off+i) = src i := by
  simp [blit, h]

theorem blit_outside (m : ℕ → α) (off n : ℕ) (src : ℕ → α) {i : ℕ} (h : i < off ∨ off+n ≤ i) :
    blit m off n src i = m i := by
  have hn : ¬ (off ≤ i ∧ i < off+n) := by omega
  simp [blit, hn]

@[simp] theorem blit_zero (m : ℕ → α) (off : ℕ) (src : ℕ → α) : blit m off 0 src = m := by
  funext i
  exact blit_outside m off 0 src (by omega)

/-- Reading back the overwritten window gives the source. -/
theorem slice_blit_self (m : ℕ → α) (off n : ℕ) (src : ℕ → α) :
    slice (blit m off n src) off n = slice src 0 n := by
  apply slice_congr
  intro i hi
  simpa using blit_inside m off n src hi

/-- A list laid out from offset 0 on reads back as it is. -/
theorem slice_getD (xs : List α) (d : α) : slice (fun i => xs.getD i d) 0 xs.length = xs := by
  refine List.ext_getElem (slice_length _ _ _) fun i _ hi => ?_
  simp [slice, hi]

/-- Memories that agree in a cell still agree there after the same overwriting. -/
theorem blit_congr {m m' : ℕ → α} {src src' : ℕ → α} (off : ℕ) {n i : ℕ} (hm : m i = m' i)
    (hsrc : ∀ j, j < n → src j = src' j) : blit m off n src i = blit m' off n src' i := by
  unfold blit
  split_ifs with h
  · exact hsrc _ (by omega)
  · exact hm

/-- An overwriting stays in a window, whatever was there, exactly if it is no longer than the window. -/
theorem blit_within_iff [Nontrivial α] (off size n : ℕ) (src : ℕ → α) :
    (∀ m i, i < off ∨ off+size ≤ i → blit m off n src i = m i) ↔ n ≤ size := by
  constructor
  · intro h
    by_contra hn
    obtain ⟨v,hv⟩ := exists_ne (src size)
    have hstored := blit_inside (fun _ => v) off n src (Nat.lt_of_not_le hn)
    exact hv.symm (hstored.symm.trans (h (fun _ => v) (off+size) (.inr le_rfl)))
  · intro h m i hi
    exact blit_outside m off n src (by omega)

/-- Overwrite a window by the values of a list. -/
def paste (m : ℕ → α) (off : ℕ) (xs : List α) : ℕ → α :=
  fun i => if h : off ≤ i ∧ i < off+xs.length then xs[i-off] else m i

@[simp] theorem paste_nil (m : ℕ → α) (off : ℕ) : paste m off [] = m := by
  funext i
  exact dif_neg (by simp)

theorem paste_cons (m : ℕ → α) (off : ℕ) (v : α) (xs : List α) :
    paste m off (v::xs) = paste (Function.update m off v) (off+1) xs := by
  funext i
  unfold paste
  by_cases hin : off+1 ≤ i ∧ i < off+1+xs.length
  · have hin' : off ≤ i ∧ i < off+(v::xs).length := by simp; omega
    have hidx : i-off = i-(off+1)+1 := by omega
    rw [dif_pos hin',dif_pos hin]
    simp [hidx]
  · rw [dif_neg hin]
    by_cases hi : i = off
    · subst hi; simp
    · have hout : ¬ (off ≤ i ∧ i < off+(v::xs).length) := by simp; omega
      rw [dif_neg hout,Function.update_of_ne hi]

/-- A longer list overwrites one more cell. -/
theorem paste_concat (m : ℕ → α) (off : ℕ) (xs : List α) (v : α) :
    paste m off (xs ++ [v]) = Function.update (paste m off xs) (off+xs.length) v := by
  funext i
  by_cases hi : i = off+xs.length
  · subst hi; simp [paste]
  · rw [Function.update_of_ne hi]
    unfold paste
    by_cases hin : off ≤ i ∧ i < off+xs.length
    · have hin' : off ≤ i ∧ i < off+(xs ++ [v]).length := by simp; omega
      rw [dif_pos hin',dif_pos hin,List.getElem_append_left (by omega)]
    · have hout : ¬ (off ≤ i ∧ i < off+(xs ++ [v]).length) := by simp; omega
      rw [dif_neg hout,dif_neg hin]

end ExampleKernel.Foundation
