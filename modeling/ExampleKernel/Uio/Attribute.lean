import Mathlib.Data.UInt
import ExampleKernel.Foundation.Transition
import ExampleKernel.Foundation.CString

/-! The attribute `uio_info` of the UIO driver: what `get_uio_info` returns after any sequence of stores,
with the limit of the page cutting texts off in both functions. -/
namespace ExampleKernel.Uio
open ExampleKernel.Foundation

/-- The characters of a text before its terminating null. -/
structure Text where
  chars : List UInt8
  nonzero : ∀ c ∈ chars, c ≠ 0

/-- `"%s\n"` -/
def line (chars : List UInt8) : List UInt8 := chars ++ [10]

/-- The contents of `test_arr` and of whatever lies behind it. -/
abbrev State := ℕ → UInt8

def load : State := fun _ => 0

section Attribute
variable (pageSize : ℕ)

/-- The page that the caller receives, and the return value; no result if `%s` runs past `test_arr`. -/
def getUioInfo (buf : ℕ → UInt8) (testArr : State) : Option ((ℕ → UInt8) × ℕ) :=
  (cString testArr pageSize 0).map fun chars => snprintf buf 0 pageSize (line chars)

def setUioInfo (buf : Text) (count : ℕ) (testArr : State) : ℕ × State :=
  (count,(snprintf testArr 0 pageSize (line buf.chars)).1)

inductive Call
  | getUioInfo (buf : ℕ → UInt8)
  | setUioInfo (buf : Text) (count : ℕ)

def step (testArr : State) : Call → Option State
  | .getUioInfo buf => (getUioInfo pageSize buf testArr).map fun _ => testArr
  | .setUioInfo buf count => some (setUioInfo pageSize buf count testArr).2

/-- The terminating null comes within the page. -/
def Terminated (testArr : State) : Prop := (cString testArr pageSize 0).isSome

/-- A read returns the number of characters before the null that it has put, and less than a page. -/
def Reports (testArr : State) : Call → Prop
  | .getUioInfo buf => ∃ page ret chars, getUioInfo pageSize buf testArr = some (page,ret) ∧
      cString page pageSize 0 = some chars ∧ ret = chars.length ∧ ret < pageSize
  | .setUioInfo _ _ => True

/-- Whenever the attribute is read, the text stored last and its newline fit in a page with room for
another newline and the null. -/
def Fits : List UInt8 → List Call → Prop
  | _, [] => True
  | chars, .getUioInfo _ :: calls => chars.length+2 < pageSize ∧ Fits chars calls
  | _, .setUioInfo buf _ :: calls => Fits buf.chars calls

end Attribute

section Calls
variable {pageSize : ℕ}

theorem line_length (chars : List UInt8) : (line chars).length = chars.length+1 := List.length_append

theorem line_ne_zero {chars : List UInt8} (h : ∀ c ∈ chars, c ≠ 0) : ∀ c ∈ line chars, c ≠ 0 := by
  intro c hc
  rcases List.mem_append.mp hc with hc | hc
  · exact h c hc
  · rw [List.mem_singleton.mp hc]
    decide

/-- What `test_arr` holds after `chars` was the text stored last: one more newline fits behind it exactly
if the text was short enough. -/
def Holds (pageSize : ℕ) (testArr : State) (chars : List UInt8) : Prop :=
  ∃ stored, cString testArr pageSize 0 = some stored ∧ (stored.length+1 < pageSize ↔ chars.length+2 < pageSize)

theorem Holds.terminated {testArr : State} {chars : List UInt8} (h : Holds pageSize testArr chars) :
    Terminated pageSize testArr := by
  obtain ⟨stored,hstored,-⟩ := h
  exact Option.isSome_iff_exists.mpr ⟨stored,hstored⟩

theorem holds_load (hpage : 2 < pageSize) : Holds pageSize load [] := by
  refine ⟨[],?_,iff_of_true (Nat.lt_of_succ_lt hpage) hpage⟩
  obtain ⟨limit,rfl⟩ := Nat.exists_eq_succ_of_ne_zero (Nat.zero_lt_of_lt hpage).ne'
  exact if_pos rfl

theorem holds_setUioInfo (hpage : 2 < pageSize) (buf : Text) (count : ℕ) (testArr : State) :
    Holds pageSize (setUioInfo pageSize buf count testArr).2 buf.chars := by
  refine ⟨_,cString_snprintf (Nat.zero_lt_of_lt hpage) le_rfl (line_ne_zero buf.nonzero),?_⟩
  rw [List.length_take,line_length]
  omega

/-- The count returned is that of the whole line, which the page may have cut off. -/
theorem reports_getUioInfo_iff {testArr : State} {chars : List UInt8} (h : Holds pageSize testArr chars)
    (buf : ℕ → UInt8) : Reports pageSize testArr (.getUioInfo buf) ↔ chars.length+2 < pageSize := by
  obtain ⟨stored,hstored,hfits⟩ := h
  have hlen := cString_length_lt hstored
  have hget : getUioInfo pageSize buf testArr = some (snprintf buf 0 pageSize (line stored)) := by
    rw [getUioInfo,hstored]
    rfl
  have hput : cString (snprintf buf 0 pageSize (line stored)).1 pageSize 0 = some ((line stored).take (pageSize-1)) :=
    cString_snprintf (Nat.zero_lt_of_lt hlen) le_rfl (line_ne_zero (cString_ne_zero hstored))
  rw [← hfits,← line_length]
  constructor
  · rintro ⟨page,ret,put,hresult,-,-,hlt⟩
    obtain rfl := congrArg Prod.snd (Option.some.inj (hget.symm.trans hresult))
    exact hlt
  · intro hlt
    refine ⟨_,_,_,hget,hput,?_,hlt⟩
    rw [List.length_take]
    exact (min_eq_right (Nat.le_sub_one_of_lt hlt)).symm

theorem step_of_holds {testArr : State} {chars : List UInt8} (h : Holds pageSize testArr chars) (buf : ℕ → UInt8) :
    step pageSize testArr (.getUioInfo buf) = some testArr := by
  obtain ⟨stored,hstored,-⟩ := h
  rw [step,getUioInfo,hstored]
  rfl

theorem always_terminated (hpage : 2 < pageSize) (calls : List Call) :
    Always (step pageSize) (Terminated pageSize) load calls := by
  refine always_of_invariant (I := fun testArr => ∃ chars, Holds pageSize testArr chars) ?_ ?_
    ⟨[],holds_load hpage⟩ calls
  · rintro testArr c testArr' ht ⟨chars,h⟩
    cases c with
    | getUioInfo buf =>
      rw [step_of_holds h] at ht
      cases ht
      exact ⟨chars,h⟩
    | setUioInfo buf count =>
      cases ht
      exact ⟨buf.chars,holds_setUioInfo hpage buf count testArr⟩
  · rintro testArr ⟨chars,h⟩
    exact h.terminated

theorem meets_reports_iff (hpage : 2 < pageSize) {testArr : State} {chars : List UInt8}
    (h : Holds pageSize testArr chars) (calls : List Call) :
    Meets (step pageSize) (Reports pageSize) testArr calls ↔ Fits pageSize chars calls := by
  induction calls generalizing testArr chars with
  | nil => exact Iff.rfl
  | cons c calls ih =>
    cases c with
    | getUioInfo buf =>
      rw [Meets,Fits,reports_getUioInfo_iff h,step_of_holds h,← ih h]
      simp
    | setUioInfo buf count =>
      rw [Meets,Fits,← ih (holds_setUioInfo hpage buf count testArr)]
      simp [Reports, step]

end Calls

/-- In every sequence of calls `test_arr` stays terminated, and the reads report what they have put exactly
when each follows a text of at most three characters less than a page. A page has 4096 bytes or more. -/
theorem info_contract_iff {pageSize : ℕ} (hpage : 2 < pageSize) (calls : List Call) :
    Always (step pageSize) (Terminated pageSize) load calls ∧
      (Meets (step pageSize) (Reports pageSize) load calls ↔ Fits pageSize [] calls) :=
  ⟨always_terminated hpage calls,meets_reports_iff hpage (holds_load hpage) calls⟩

/-- A short text in a small page. -/
theorem info_contract_one_char :
    let calls : List Call := [.setUioInfo ⟨[0x31],by simp⟩ 1,.getUioInfo fun _ => 0]
    Always (step 4) (Terminated 4) load calls ∧ Meets (step 4) (Reports 4) load calls := by
  intro calls
  obtain ⟨halways,hreports⟩ := @info_contract_iff 4 (by decide) calls
  exact ⟨halways,hreports.mpr ⟨by decide,trivial⟩⟩

/-- A text of 4094 characters is read back as a page of 4095 characters whose length is returned as 4096. -/
theorem full_page_reported_too_long : ¬ ∀ calls : List Call,
    Always (step 4096) (Terminated 4096) load calls ∧ Meets (step 4096) (Reports 4096) load calls := by
  intro h
  let buf : Text := ⟨List.replicate 4094 0x31,fun c hc => by rw [List.eq_of_mem_replicate hc]; decide⟩
  have hmeets := (h [.setUioInfo buf 4094,.getUioInfo fun _ => 0]).2
  have hreports := (hmeets.2 _ rfl).1
  rw [reports_getUioInfo_iff (holds_setUioInfo (by decide) buf 4094 load),List.length_replicate] at hreports
  exact absurd hreports (by decide)

end ExampleKernel.Uio
