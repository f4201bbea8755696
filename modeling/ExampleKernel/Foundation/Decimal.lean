import Mathlib.Data.List.TakeWhile
import Mathlib.Tactic

/-! Decimal numbers at the start of a text, behind spaces: what a reader accepts, which number it finds, and that it
finds again what was written. -/
namespace ExampleKernel.Foundation

/-- The digits at the start, as many as there are. -/
def digits (text : List Char) : List Char := text.takeWhile Char.isDigit

def natOf (text : List Char) : ℕ := Nat.ofDigitChars 10 (digits text) 0

def scanInt (space : Char → Bool) (text : List Char) : Option ℤ :=
  match text.dropWhile space with
  | '-'::rest => if digits rest = [] then none else some (-natOf rest)
  | str => if digits str = [] then none else some (natOf str)

/-- An optional sign and at least one digit, behind spaces and in front of no further digit. -/
inductive Numeral (space : Char → Bool) : List Char → ℤ → Prop
  | pos {spaces ds rest : List Char} (hspaces : ∀ c ∈ spaces, space c = true) (hds : ∀ c ∈ ds, c.isDigit = true)
      (hne : ds ≠ []) (hrest : ∀ c ∈ rest.head?, c.isDigit = false) :
      Numeral space (spaces ++ (ds ++ rest)) (Nat.ofDigitChars 10 ds 0)
  | neg {spaces ds rest : List Char} (hspaces : ∀ c ∈ spaces, space c = true) (hds : ∀ c ∈ ds, c.isDigit = true)
      (hne : ds ≠ []) (hrest : ∀ c ∈ rest.head?, c.isDigit = false) :
      Numeral space (spaces ++ ('-'::(ds ++ rest))) (-(Nat.ofDigitChars 10 ds 0 : ℕ))

section Digits
variable {ds rest text : List Char}

theorem digits_append (hds : ∀ c ∈ ds, c.isDigit = true) (hrest : ∀ c ∈ rest.head?, c.isDigit = false) :
    digits (ds ++ rest) = ds := by
  unfold digits
  rw [List.takeWhile_append_of_pos hds]
  cases rest with
  | nil => simp
  | cons c rest => rw [List.takeWhile_cons_of_neg (by simpa using hrest c rfl),List.append_nil]

theorem isDigit_of_mem_digits {c : Char} (h : c ∈ digits text) : c.isDigit = true := List.mem_takeWhile_imp h

/-- Behind its digits a text has no digit. -/
theorem exists_behind_digits (text : List Char) :
    ∃ rest, text = digits text ++ rest ∧ ∀ c ∈ rest.head?, c.isDigit = false := by
  refine ⟨text.dropWhile Char.isDigit,List.takeWhile_append_dropWhile.symm,fun c hc => ?_⟩
  have := List.head?_dropWhile_not Char.isDigit text
  rw [Option.mem_def.mp hc] at this
  simpa using this

end Digits

section Scan
variable {space : Char → Bool} {text spaces str rest : List Char} {n : ℤ}

theorem dropWhile_spaces (hspaces : ∀ c ∈ spaces, space c = true) (hstr : ∀ c ∈ str.head?, space c = false) :
    (spaces ++ str).dropWhile space = str := by
  rw [List.dropWhile_append_of_pos hspaces]
  cases str with
  | nil => rfl
  | cons c str => exact List.dropWhile_cons_of_neg (by simpa using hstr c rfl)

theorem scanInt_minus (h : text.dropWhile space = '-'::rest) :
    scanInt space text = if digits rest = [] then none else some (-(natOf rest : ℤ)) := by
  simp only [scanInt, h]

theorem scanInt_plain (h : (text.dropWhile space).head? ≠ some '-') : scanInt space text =
    if digits (text.dropWhile space) = [] then none else some (natOf (text.dropWhile space) : ℤ) := by
  unfold scanInt
  split
  · rename_i hstr
    exact absurd (congrArg List.head? hstr) h
  · rfl

/-- The reader accepts the numerals, and finds their number. -/
theorem scanInt_eq_some_iff (hminus : space '-' = false) (hdigit : ∀ c, c.isDigit = true → space c = false) :
    scanInt space text = some n ↔ Numeral space text n := by
  constructor
  · intro h
    obtain ⟨spaces,htext,hspaces⟩ : ∃ spaces, text = spaces ++ text.dropWhile space ∧ ∀ c ∈ spaces, space c = true :=
      ⟨_,List.takeWhile_append_dropWhile.symm,fun _ hc => List.mem_takeWhile_imp hc⟩
    rw [htext]
    by_cases hminus : (text.dropWhile space).head? = some '-'
    · obtain ⟨rest,hstr⟩ := List.head?_eq_some_iff.mp hminus
      rw [scanInt_minus hstr,Option.ite_none_left_eq_some] at h
      obtain ⟨hne,hn⟩ := h
      obtain ⟨tail,hrest,hnot⟩ := exists_behind_digits rest
      rw [hstr,← Option.some.inj hn,natOf]
      nth_rewrite 1 [hrest]
      exact .neg hspaces (fun _ => isDigit_of_mem_digits) hne hnot
    · rw [scanInt_plain hminus,Option.ite_none_left_eq_some] at h
      obtain ⟨hne,hn⟩ := h
      obtain ⟨tail,hrest,hnot⟩ := exists_behind_digits (text.dropWhile space)
      rw [← Option.some.inj hn,natOf]
      nth_rewrite 1 [hrest]
      exact .pos hspaces (fun _ => isDigit_of_mem_digits) hne hnot
  · intro h
    cases h with
    | @pos spaces ds rest hspaces hds hne hrest =>
      obtain ⟨d,ds,rfl⟩ := List.exists_cons_of_ne_nil hne
      have hd := hds d List.mem_cons_self
      have hdrop : (spaces ++ (d::ds ++ rest)).dropWhile space = d::ds ++ rest :=
        dropWhile_spaces hspaces fun c hc => by cases hc; exact hdigit d hd
      rw [scanInt_plain]
      · rw [hdrop,natOf,digits_append hds hrest,if_neg hne]
      · rw [hdrop]
        rintro heq
        cases heq
        contradiction
    | @neg spaces ds rest hspaces hds hne hrest =>
      have hdrop : (spaces ++ ('-'::(ds ++ rest))).dropWhile space = '-'::(ds ++ rest) :=
        dropWhile_spaces hspaces fun c hc => by cases hc; exact hminus
      rw [scanInt_minus hdrop,natOf,digits_append hds hrest,if_neg hne]

end Scan

theorem toList_toString (v : ℤ) :
    (toString v).toList = (if v < 0 then ['-'] else []) ++ Nat.toDigits 10 v.natAbs := by
  rw [Int.toString_eq_repr,Int.repr_eq_if]
  split_ifs with hpos hneg hneg
  · omega
  · rw [Nat.toList_repr,List.nil_append]
    congr 1
    omega
  · rw [String.toList_append,Nat.toList_repr]
    congr 2
    omega
  · omega

/-- A written number is a numeral, whatever follows it but a digit. -/
theorem numeral_toString (space : Char → Bool) {spaces rest : List Char} (hspaces : ∀ c ∈ spaces, space c = true)
    (hrest : ∀ c ∈ rest.head?, c.isDigit = false) (v : ℤ) :
    Numeral space (spaces ++ ((toString v).toList ++ rest)) v := by
  have hds : ∀ c ∈ Nat.toDigits 10 v.natAbs, c.isDigit = true :=
    fun _ => Nat.isDigit_of_mem_toDigits (by decide) (by decide)
  rw [toList_toString]
  split_ifs with hneg
  · have h := Numeral.neg hspaces hds Nat.toDigits_ne_nil hrest
    rw [Nat.ofDigitChars_ten_toDigits] at h
    have hv : -(v.natAbs : ℤ) = v := by omega
    rwa [hv] at h
  · have h := Numeral.pos hspaces hds Nat.toDigits_ne_nil hrest
    rw [Nat.ofDigitChars_ten_toDigits] at h
    have hv : (v.natAbs : ℤ) = v := by omega
    rwa [hv] at h

end ExampleKernel.Foundation
