import Mathlib.Tactic

/-! Scanning a rectangular window of cells row by row, with wrap-around from its last cell to its
first. Cells are pairs of a row and a column. -/
namespace ExampleKernel.Foundation

structure Window where
  rowStart : ℕ
  rowEnd : ℕ
  colStart : ℕ
  colEnd : ℕ
  deriving DecidableEq

namespace Window

/-- The cell scanned after `c`: the next column, or the first column of the next row. -/
def next (w : Window) (c : ℕ × ℕ) : ℕ × ℕ :=
  if c.2 = w.colEnd then (if c.1 = w.rowEnd then w.rowStart else c.1+1,w.colStart) else (c.1,c.2+1)

def width (w : Window) : ℕ := w.colEnd+1-w.colStart

def height (w : Window) : ℕ := w.rowEnd+1-w.rowStart

structure Contains (w : Window) (c : ℕ × ℕ) : Prop where
  rowStart : w.rowStart ≤ c.1
  rowEnd : c.1 ≤ w.rowEnd
  colStart : w.colStart ≤ c.2
  colEnd : c.2 ≤ w.colEnd

/-- How many cells the scan of the window has passed before `c`. -/
def index (w : Window) (c : ℕ × ℕ) : ℕ := (c.1-w.rowStart)*w.width + (c.2-w.colStart)

variable {w : Window} {c d : ℕ × ℕ}

theorem next_contains (h : w.Contains c) : w.Contains (w.next c) := by
  obtain ⟨hrs,hre,hcs,hce⟩ := h
  unfold next
  split_ifs with hcol hrow
  · exact ⟨le_rfl,hrs.trans hre,le_rfl,hcs.trans hce⟩
  · exact ⟨hrs.trans (Nat.le_succ _),Nat.succ_le_of_lt (lt_of_le_of_ne hre hrow),le_rfl,hcs.trans hce⟩
  · exact ⟨hrs,hre,hcs.trans (Nat.le_succ _),Nat.succ_le_of_lt (lt_of_le_of_ne hce hcol)⟩

theorem index_lt (h : w.Contains c) : w.index c < w.height*w.width := by
  obtain ⟨hrs,hre,hcs,hce⟩ := h
  have hcol : c.2-w.colStart < w.width := by unfold width; omega
  have hrow : c.1-w.rowStart+1 ≤ w.height := by unfold height; omega
  calc w.index c < (c.1-w.rowStart)*w.width + w.width := Nat.add_lt_add_left hcol _
    _ = (c.1-w.rowStart+1)*w.width := (Nat.succ_mul _ _).symm
    _ ≤ w.height*w.width := Nat.mul_le_mul_right _ hrow

theorem index_next (h : w.Contains c) : w.index (w.next c) = (w.index c+1) % (w.height*w.width) := by
  have hlt := index_lt (next_contains h)
  obtain ⟨hrs,hre,hcs,hce⟩ := h
  have hwidth : 0 < w.width := by unfold width; omega
  unfold next at hlt ⊢
  split_ifs at hlt ⊢ with hcol hrow
  · -- the last cell of the window is followed by its first
    have hlast : w.index c+1 = w.height*w.width := by
      have hc : c.2-w.colStart+1 = w.width := by unfold width; omega
      have hr : c.1-w.rowStart+1 = w.height := by unfold height; omega
      rw [index,Nat.add_assoc,hc,← Nat.succ_mul,Nat.succ_eq_add_one,hr]
    rw [hlast,Nat.mod_self]
    simp [index]
  · have hline : w.index (c.1+1,w.colStart) = w.index c+1 := by
      have hc : c.2-w.colStart+1 = w.width := by unfold width; omega
      have hr : c.1+1-w.rowStart = c.1-w.rowStart+1 := by omega
      simp only [index, hr, Nat.sub_self, Nat.add_zero, Nat.add_assoc, hc, Nat.succ_mul]
    rw [hline] at hlt ⊢
    exact (Nat.mod_eq_of_lt hlt).symm
  · have hstep : w.index (c.1,c.2+1) = w.index c+1 := by
      have hc : c.2+1-w.colStart = c.2-w.colStart+1 := by omega
      simp only [index, hc, Nat.add_assoc]
    rw [hstep] at hlt ⊢
    exact (Nat.mod_eq_of_lt hlt).symm

/-- The index tells the cell. -/
theorem eq_of_index_eq (hc : w.Contains c) (hd : w.Contains d) (h : w.index c = w.index d) : c = d := by
  have hwidth : ∀ {e}, w.Contains e → e.2-w.colStart < w.width := by
    intro e he
    have := he.colStart
    have := he.colEnd
    unfold width
    omega
  have hrow : c.1-w.rowStart = d.1-w.rowStart := by
    have hdiv := congrArg (· / w.width) h
    have hpos : 0 < w.width := (Nat.zero_le _).trans_lt (hwidth hc)
    simpa [index, Nat.mul_add_div, Nat.mul_comm _ w.width, hpos, Nat.div_eq_of_lt (hwidth hc),
      Nat.div_eq_of_lt (hwidth hd)] using hdiv
  have hcol : c.2-w.colStart = d.2-w.colStart := by
    rw [index,index,hrow] at h
    exact Nat.add_left_cancel h
  have h₁ := hc.rowStart
  have h₂ := hd.rowStart
  have h₃ := hc.colStart
  have h₄ := hd.colStart
  exact Prod.ext (by omega) (by omega)

theorem iterate_contains (h : w.Contains c) (n : ℕ) : w.Contains (w.next^[n] c) := by
  induction n generalizing c with
  | zero => exact h
  | succ n ih => exact ih (next_contains h)

theorem index_iterate (h : w.Contains c) (n : ℕ) :
    w.index (w.next^[n] c) = (w.index c+n) % (w.height*w.width) := by
  induction n generalizing c with
  | zero => exact (Nat.mod_eq_of_lt (index_lt h)).symm
  | succ n ih =>
    rw [Function.iterate_succ_apply,ih (next_contains h),index_next h,Nat.mod_add_mod,Nat.add_right_comm,
      Nat.add_assoc]

/-- As many steps as the window has cells lead back. -/
theorem iterate_area (h : w.Contains c) : w.next^[w.height*w.width] c = c := by
  apply eq_of_index_eq (iterate_contains h _) h
  rw [index_iterate h,Nat.add_mod_right,Nat.mod_eq_of_lt (index_lt h)]

/-- A scan of as many steps as the window has cells passes each of them. -/
theorem visits (hc : w.Contains c) (hd : w.Contains d) : ∃ i < w.height*w.width, w.next^[i] c = d := by
  have hpos : 0 < w.height*w.width := (Nat.zero_le _).trans_lt (index_lt hd)
  refine ⟨(w.index d+(w.height*w.width-w.index c)) % (w.height*w.width),Nat.mod_lt _ hpos,?_⟩
  apply eq_of_index_eq (iterate_contains hc _) hd
  have hsum : w.index c+(w.index d+(w.height*w.width-w.index c)) = w.index d+w.height*w.width := by
    have := index_lt hc
    omega
  rw [index_iterate hc,Nat.add_mod_mod,hsum,Nat.add_mod_right,Nat.mod_eq_of_lt (index_lt hd)]

/-- Where a scan is after `n` steps tells `n` up to whole rounds of the window. -/
theorem iterate_eq_iff (hc : w.Contains c) (n : ℕ) :
    w.next^[n] c = d ↔ w.Contains d ∧ (w.index c+n) % (w.height*w.width) = w.index d := by
  rw [← index_iterate hc]
  constructor
  · rintro rfl
    exact ⟨iterate_contains hc n,rfl⟩
  · rintro ⟨hd,hindex⟩
    exact eq_of_index_eq (iterate_contains hc n) hd hindex

theorem iterate_eq_self_iff (hc : w.Contains c) (n : ℕ) : w.next^[n] c = c ↔ w.height*w.width ∣ n := by
  rw [iterate_eq_iff hc,and_iff_right hc]
  conv_lhs => rhs; rw [← Nat.mod_eq_of_lt (index_lt hc)]
  exact Nat.add_modEq_left_iff

/-- Before the end of a row the scan stays in it. -/
theorem iterate_row {n : ℕ} (h : c.2+n ≤ w.colEnd) : w.next^[n] c = (c.1,c.2+n) := by
  induction n generalizing c with
  | zero => rfl
  | succ n ih =>
    have hnext : w.next c = (c.1,c.2+1) := if_neg (by omega)
    rw [Function.iterate_succ_apply,hnext,ih (by simp only; omega)]
    exact Prod.ext rfl (by simp only; omega)

end Window

/-- Overwrite consecutive cells of one row, from the cell `c` on. -/
def draw {α : Type*} (m : ℕ × ℕ → α) (c : ℕ × ℕ) (bs : List α) : ℕ × ℕ → α :=
  fun d => if h : d.1 = c.1 ∧ c.2 ≤ d.2 ∧ d.2 < c.2+bs.length then bs[d.2-c.2] else m d

@[simp] theorem draw_nil {α : Type*} (m : ℕ × ℕ → α) (c : ℕ × ℕ) : draw m c [] = m := by
  funext d
  exact dif_neg (by simp only [List.length_nil]; omega)

theorem draw_cons {α : Type*} (m : ℕ × ℕ → α) (row col : ℕ) (b : α) (bs : List α) :
    draw m (row,col) (b::bs) = draw (Function.update m (row,col) b) (row,col+1) bs := by
  funext ⟨r,k⟩
  simp only [draw, List.length_cons]
  by_cases hhead : (r,k) = (row,col)
  · obtain ⟨rfl,rfl⟩ := Prod.mk.inj hhead
    simp
  · rw [Function.update_of_ne hhead]
    by_cases hin : r = row ∧ col+1 ≤ k ∧ k < col+1+bs.length
    · have hsub : k-col = k-(col+1)+1 := by omega
      rw [dif_pos hin,dif_pos (by omega)]
      simp [hsub]
    · have hne : ¬ (r = row ∧ k = col) := fun h => hhead (Prod.ext h.1 h.2)
      rw [dif_neg hin,dif_neg (by omega)]

end ExampleKernel.Foundation
