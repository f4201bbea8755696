import Mathlib.Data.List.GetD
import ExampleKernel.Foundation.Buffer

/-! Texts that end with a zero in a flat memory, and formatting into a window that cuts them off. -/
namespace ExampleKernel.Foundation

variable {α : Type*} [Zero α] [DecidableEq α]

/-- The text from `off` on, if the zero that ends it comes within `limit` cells. -/
def cString (m : ℕ → α) : ℕ → ℕ → Option (List α)
  | 0, _ => none
  | limit+1, off => if m off = 0 then some [] else (cString m limit (off+1)).map (m off :: ·)

/-- Store a text in a window of `size` cells, cut off before a zero. The length returned is that of the
whole text. -/
def snprintf (m : ℕ → α) (off size : ℕ) (text : List α) : (ℕ → α) × ℕ :=
  (if size = 0 then m else paste m off (text.take (size-1) ++ [0]),text.length)

theorem cString_length_lt {m : ℕ → α} {limit off : ℕ} {text : List α} (h : cString m limit off = some text) :
    text.length < limit := by
  induction limit generalizing off text with
  | zero => contradiction
  | succ limit ih =>
    rw [cString] at h
    split_ifs at h with hz
    · cases h
      exact limit.succ_pos
    · obtain ⟨rest,hrest,rfl⟩ := Option.map_eq_some_iff.mp h
      exact Nat.succ_lt_succ (ih hrest)

theorem cString_ne_zero {m : ℕ → α} {limit off : ℕ} {text : List α} (h : cString m limit off = some text) :
    ∀ c ∈ text, c ≠ 0 := by
  induction limit generalizing off text with
  | zero => contradiction
  | succ limit ih =>
    rw [cString] at h
    split_ifs at h with hz
    · cases h
      exact List.forall_mem_nil _
    · obtain ⟨rest,hrest,rfl⟩ := Option.map_eq_some_iff.mp h
      exact List.forall_mem_cons.mpr ⟨hz,ih hrest⟩

/-- A text without a zero reads back as far as it was stored. -/
theorem cString_paste {m : ℕ → α} {limit off : ℕ} {text : List α} (hlimit : text.length < limit)
    (hne : ∀ c ∈ text, c ≠ 0) : cString (paste m off (text ++ [0])) limit off = some text := by
  induction text generalizing m limit off with
  | nil =>
    obtain ⟨limit,rfl⟩ := Nat.exists_eq_succ_of_ne_zero hlimit.ne'
    exact if_pos (by simp [paste])
  | cons c text ih =>
    obtain ⟨limit,rfl⟩ := Nat.exists_eq_succ_of_ne_zero (Nat.zero_lt_of_lt hlimit).ne'
    obtain ⟨hc,htext⟩ := List.forall_mem_cons.mp hne
    have hhead : paste m off (c :: text ++ [0]) off = c := by simp [paste]
    rw [cString,if_neg (hhead.symm ▸ hc),hhead,List.cons_append,paste_cons,ih (Nat.lt_of_succ_lt_succ hlimit) htext]
    rfl

theorem cString_snprintf {m : ℕ → α} {limit off size : ℕ} {text : List α} (hsize : 0 < size)
    (hlimit : size ≤ limit) (hne : ∀ c ∈ text, c ≠ 0) :
    cString (snprintf m off size text).1 limit off = some (text.take (size-1)) := by
  rw [snprintf,if_neg hsize.ne']
  apply cString_paste
  · rw [List.length_take]
    omega
  · exact fun c hc => hne c (List.mem_of_mem_take hc)

theorem cString_getElem {m : ℕ → α} {limit off : ℕ} {text : List α} (h : cString m limit off = some text) :
    (∀ i, (hi : i < text.length) → m (off+i) = text[i]) ∧ m (off+text.length) = 0 := by
  induction limit generalizing off text with
  | zero => contradiction
  | succ limit ih =>
    rw [cString] at h
    split_ifs at h with hz
    · cases h
      exact ⟨fun i hi => absurd hi (Nat.not_lt_zero i),hz⟩
    · obtain ⟨rest,hrest,rfl⟩ := Option.map_eq_some_iff.mp h
      obtain ⟨hcells,hend⟩ := ih hrest
      constructor
      · intro i hi
        cases i with
        | zero => rfl
        | succ i => simpa [Nat.add_assoc, Nat.add_comm 1] using hcells i (Nat.lt_of_succ_lt_succ hi)
      · simpa [Nat.add_assoc, Nat.add_comm 1] using hend

theorem ne_zero_of_cString {m : ℕ → α} {limit off : ℕ} (h : cString m limit off = none) :
    ∀ i < limit, m (off+i) ≠ 0 := by
  induction limit generalizing off with
  | zero => exact fun i hi => absurd hi (Nat.not_lt_zero i)
  | succ limit ih =>
    rw [cString] at h
    split_ifs at h with hz
    rw [Option.map_eq_none_iff] at h
    intro i hi
    cases i with
    | zero => exact hz
    | succ i => simpa [Nat.add_assoc, Nat.add_comm 1] using ih h i (Nat.lt_of_succ_lt_succ hi)

/-- The first `n` cells hold the text and zeros behind it, but for zeros that have come into it. -/
def Worn {β : Type*} [Zero β] (zeroed : Prop) (m : ℕ → β) (n : ℕ) (text : List β) : Prop :=
  ∀ i < n, m i = text.getD i 0 ∨ m i = 0 ∧ zeroed

section Worn
variable {β : Type*} [Zero β] {zeroed : Prop} {m : ℕ → β} {n : ℕ} {text : List β}

theorem Worn.mono {n' : ℕ} (h : Worn zeroed m n text) (hn : n' ≤ n) : Worn zeroed m n' text :=
  fun i hi => h i (hi.trans_le hn)

theorem Worn.imp {zeroed' : Prop} (h : Worn zeroed m n text) (hz : zeroed → zeroed') : Worn zeroed' m n text :=
  fun i hi => (h i hi).imp_right (And.imp_right hz)

theorem Worn.of_eq {m' : ℕ → β} (h : Worn zeroed m n text) (heq : ∀ i < n, m' i = m i) : Worn zeroed m' n text := by
  intro i hi
  rw [heq i hi]
  exact h i hi

/-- One more zero. -/
theorem Worn.zero (h : Worn zeroed m n text) (j : ℕ) : Worn True (Function.update m j 0) n text := by
  intro i hi
  by_cases hij : i = j
  · exact .inr ⟨by rw [hij,Function.update_self],trivial⟩
  · rw [Function.update_of_ne hij]
    exact (h i hi).imp_right (And.imp_right fun _ => trivial)

theorem Worn.succ (h : Worn zeroed m n text) (hlast : m n = text.getD n 0 ∨ m n = 0 ∧ zeroed) :
    Worn zeroed m (n+1) text := by
  intro i hi
  obtain hlt | rfl := Nat.lt_succ_iff_lt_or_eq.mp hi
  · exact h i hlt
  · exact hlast

end Worn

/-- Where the text has no zero of its own, a worn copy reads as a prefix of it, and as the text itself if
no zero has come in. -/
theorem cString_of_worn {zeroed : Prop} {m : ℕ → α} {limit : ℕ} {text u : List α}
    (h : Worn zeroed m (min (text.length+1) limit) text)
    (hne : 0 ∉ text) (hu : cString m limit 0 = some u) : u <+: text ∧ (¬ zeroed → u = text) := by
  have hlt := cString_length_lt hu
  have hzero := cString_ne_zero hu
  obtain ⟨hcells,hend⟩ := cString_getElem hu
  simp only [Nat.zero_add] at hcells hend
  have hchar : ∀ i, (hi : i < text.length) → text.getD i 0 ≠ 0 := fun i hi heq =>
    hne (by rw [List.getD_eq_getElem _ _ hi] at heq; exact heq ▸ List.getElem_mem hi)
  have hle : u.length ≤ text.length := by
    by_contra hgt
    have hm : m text.length = 0 := by
      obtain heq | heq := h text.length (by omega)
      · rw [heq,List.getD_eq_default _ _ le_rfl]
      · exact heq.1
    have hcell := hcells text.length (by omega)
    exact hzero _ (List.getElem_mem _) (hcell.symm.trans hm)
  have hpre : u <+: text := by
    rw [List.prefix_iff_eq_take]
    apply List.ext_getElem (by rw [List.length_take]; omega)
    intro i hi hi'
    rw [List.getElem_take]
    have hnonzero : m i ≠ 0 := by
      rw [hcells i hi]
      exact hzero _ (List.getElem_mem _)
    obtain heq | heq := h i (by omega)
    · rw [← hcells i hi,heq,List.getD_eq_getElem _ _ (by omega)]
    · exact absurd heq.1 hnonzero
  refine ⟨hpre,fun hz => hpre.eq_of_length (Nat.le_antisymm hle (not_lt.mp fun hshort => ?_))⟩
  obtain heq | heq := h u.length (by omega)
  · exact hchar u.length hshort (heq.symm.trans hend)
  · exact hz heq.2

theorem length_of_worn {zeroed : Prop} {m : ℕ → α} {limit : ℕ} {text : List α}
    (h : Worn zeroed m (min (text.length+1) limit) text)
    (hnone : cString m limit 0 = none) : limit ≤ text.length := by
  by_contra hlt
  have hcell := ne_zero_of_cString hnone text.length (by omega)
  rw [Nat.zero_add] at hcell
  obtain heq | heq := h text.length (by omega)
  · exact hcell (heq.trans (List.getD_eq_default _ _ le_rfl))
  · exact hcell heq.1

end ExampleKernel.Foundation
