import ExampleKernel.Foundation.Buffer

/-! Copies inside one memory that move the cells one after another. The order matters only where
a cell that is still to be read has already been overwritten. -/
namespace ExampleKernel.Foundation

variable {α : Type*}

/-- Copy cell `src+i` to cell `dst+i` for every `i` of `order`, one after another. -/
def copyInOrder (dst src : ℕ) (m : ℕ → α) (order : List ℕ) : ℕ → α :=
  order.foldl (fun m i => Function.update m (dst+i) (m (src+i))) m

/-- No cell is both read and written. -/
def Apart (dst src n : ℕ) : Prop := ∀ i < n, ∀ j < n, dst+i ≠ src+j

/-- No cell is read after it has been written. -/
def ReadsFirst (dst src : ℕ) (order : List ℕ) : Prop := order.Pairwise fun i j => dst+i ≠ src+j

theorem apart_iff {dst src n : ℕ} : Apart dst src n ↔ n = 0 ∨ dst+n ≤ src ∨ src+n ≤ dst := by
  constructor
  · intro h
    by_contra hout
    push Not at hout
    obtain ⟨hn,hdst,hsrc⟩ := hout
    obtain hle | hle := le_total dst src
    · exact h (src-dst) (by omega) 0 (by omega) (by omega)
    · exact h 0 (by omega) (dst-src) (by omega) (by omega)
  · intro h i hi j hj
    omega

section Copy
variable {dst src : ℕ} {order : List ℕ}

theorem copyInOrder_cons (m : ℕ → α) (i : ℕ) (order : List ℕ) :
    copyInOrder dst src m (i::order) = copyInOrder dst src (Function.update m (dst+i) (m (src+i))) order := rfl

theorem copyInOrder_outside (m : ℕ → α) {k : ℕ} (h : ∀ i ∈ order, k ≠ dst+i) :
    copyInOrder dst src m order k = m k := by
  induction order generalizing m with
  | nil => rfl
  | cons a order ih =>
    rw [copyInOrder_cons,ih _ fun i hi => h i (List.mem_cons_of_mem a hi)]
    exact Function.update_of_ne (h a List.mem_cons_self) _ _

theorem copyInOrder_inside (m : ℕ → α) (h : ReadsFirst dst src order) {i : ℕ} (hi : i ∈ order) :
    copyInOrder dst src m order (dst+i) = m (src+i) := by
  induction order generalizing m with
  | nil => cases hi
  | cons a order ih =>
    obtain ⟨ha,htail⟩ := List.pairwise_cons.mp h
    rw [copyInOrder_cons]
    by_cases hmem : i ∈ order
    · rw [ih _ htail hmem]
      exact Function.update_of_ne (ha i hmem).symm _ _
    · obtain rfl : i = a := (List.mem_cons.mp hi).resolve_right hmem
      rw [copyInOrder_outside _ fun j hj heq => hmem (by rwa [Nat.add_left_cancel heq])]
      exact Function.update_self _ _ _

/-- An order that reads every cell before writing it moves a window as a whole. -/
theorem copyInOrder_eq_blit (m : ℕ → α) (h : ReadsFirst dst src order) {n : ℕ}
    (hn : order.Perm (List.range n)) :
    copyInOrder dst src m order = blit m dst n fun i => m (src+i) := by
  funext k
  by_cases hk : dst ≤ k ∧ k < dst+n
  · obtain ⟨i,rfl⟩ := Nat.exists_eq_add_of_le hk.1
    have hi : i < n := by omega
    rw [copyInOrder_inside m h (hn.mem_iff.mpr (List.mem_range.mpr hi)),blit_inside _ _ _ _ hi]
  · rw [blit_outside _ _ _ _ (by omega)]
    refine copyInOrder_outside m fun i hi heq => hk ?_
    have hlt := List.mem_range.mp (hn.mem_iff.mp hi)
    omega

end Copy

/-- Windows without a common cell may be copied in any order. -/
theorem Apart.readsFirst {dst src n : ℕ} (h : Apart dst src n) {order : List ℕ}
    (hn : order.Perm (List.range n)) : ReadsFirst dst src order := by
  have hlt : ∀ i ∈ order, i < n := fun i hi => List.mem_range.mp (hn.mem_iff.mp hi)
  exact List.pairwise_of_forall_mem_list fun i hi j hj => h i (hlt i hi) j (hlt j hj)

/-- Moving down, or not at all, the ascending order reads first. -/
theorem readsFirst_range {dst src : ℕ} (h : dst ≤ src) (n : ℕ) : ReadsFirst dst src (List.range n) := by
  refine List.pairwise_lt_range.imp fun {i j} hij => ?_
  omega

/-- The descending order reads the cells above the lower window from the memory as it was. -/
theorem copyInOrder_descending_top (m : ℕ → α) {k n i : ℕ} (hi : i < n) (hk : n ≤ i+k) :
    copyInOrder 0 k m (List.range n).reverse i = m (k+i) := by
  induction n generalizing m with
  | zero => omega
  | succ n ih =>
    rw [List.range_succ,List.reverse_concat,copyInOrder_cons]
    obtain rfl | hlt := (Nat.lt_succ_iff.mp hi).eq_or_lt
    · rw [copyInOrder_outside _ (by simp; omega),Nat.zero_add,Function.update_self]
    · rw [ih _ hlt (by omega)]
      exact Function.update_of_ne (by omega) _ _

/-- Overlapping windows in descending order: the last byte shows up once more, `k` cells further
down, where the last byte of the lower window should be. -/
theorem copyInOrder_descending (m : ℕ → α) {k n : ℕ} (hk : 0 < k) (hn : k ≤ n) :
    copyInOrder 0 k m (List.range (n+1)).reverse (n-k) = m (k+n) := by
  rw [List.range_succ,List.reverse_concat,copyInOrder_cons,
    copyInOrder_descending_top _ (by omega) (by omega),Nat.add_sub_cancel' hn,Nat.zero_add]
  exact Function.update_self _ _ _

end ExampleKernel.Foundation
