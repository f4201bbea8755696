import ExampleKernel.Foundation.Decimal
import ExampleKernel.GlobalMem.Interrupts

/-! The sysfs file of globalmem as text: `sysfs_store` scans a number and `sysfs_show` prints it, while the interrupts
that the shows raise carry it into the list. -/
namespace ExampleKernel.GlobalMem.Sysfs
open ExampleKernel.Foundation ExampleKernel.GlobalMem.Interrupts

/-- `isspace` of the kernel, which counts the no-break space. -/
def isSpace (c : Char) : Bool := c = ' ' || ('\t' ≤ c && c ≤ '\r') || c = '\u00a0'

/-- In base 10; an `unsigned long long` wraps. -/
def simpleStrtoull (cp : List Char) : ℕ := natOf cp%2^64

def simpleStrtoll (cp : List Char) : ℤ :=
  match cp with
  | '-'::cp => (-(simpleStrtoull cp : ℤ)).bmod (2^64)
  | _ => (simpleStrtoull cp : ℤ).bmod (2^64)

/-- `sscanf(buf, "%d", &sysfs_value)`: what it stores, if anything. -/
def sscanf (buf : List Char) : Option ℤ :=
  let str := buf.dropWhile isSpace
  let digit := if str.head? = some '-' then str.tail.head? else str.head?
  if digit.any Char.isDigit then some ((simpleStrtoll str).bmod (2^32)) else none

/-- `sprintf(buf, "%d", sysfs_value)` -/
def sprintf (v : ℤ) : List Char := (toString v).toList

theorem digits_eq_nil_iff {text : List Char} : digits text = [] ↔ text.head?.any Char.isDigit = false := by
  cases text with
  | nil => simp [digits]
  | cons c text => cases hc : c.isDigit <;> simp [digits, hc]

/-- What a `long long` that has wrapped leaves in an `int`. -/
theorem bmod_bmod_of_congr {x y : ℤ} (h : (2^64 : ℤ) ∣ x-y) : (x.bmod (2^64)).bmod (2^32) = y.bmod (2^32) := by
  rw [Int.bmod_bmod_of_dvd (by norm_num),Int.bmod_eq_bmod_iff_bmod_sub_eq_zero,← Int.dvd_iff_bmod_eq_zero]
  exact dvd_trans (by norm_num) h

theorem simpleStrtoll_minus (cp : List Char) :
    (simpleStrtoll ('-'::cp)).bmod (2^32) = (-(natOf cp : ℤ)).bmod (2^32) := by
  apply bmod_bmod_of_congr
  unfold simpleStrtoull
  omega

theorem simpleStrtoll_plain {cp : List Char} (h : cp.head? ≠ some '-') :
    (simpleStrtoll cp).bmod (2^32) = (natOf cp : ℤ).bmod (2^32) := by
  unfold simpleStrtoll
  split
  · exact absurd rfl h
  · apply bmod_bmod_of_congr
    unfold simpleStrtoull
    omega

theorem ite_digit {str : List Char} (v : ℤ) : (if str.head?.any Char.isDigit = true then some v else none) =
    if digits str = [] then none else some v := by
  rw [← ite_not]
  exact if_congr (by rw [digits_eq_nil_iff,Bool.not_eq_true]) rfl rfl

/-- `sscanf` reads a number and keeps its low 32 bits. -/
theorem sscanf_eq (buf : List Char) : sscanf buf = (scanInt isSpace buf).map fun n => n.bmod (2^32) := by
  unfold sscanf
  by_cases hminus : (buf.dropWhile isSpace).head? = some '-'
  · obtain ⟨rest,hstr⟩ := List.head?_eq_some_iff.mp hminus
    rw [scanInt_minus hstr,hstr]
    simp only [List.head?_cons, if_true, List.tail_cons, simpleStrtoll_minus, ite_digit]
    split_ifs <;> rfl
  · rw [scanInt_plain hminus]
    simp only [if_neg hminus, simpleStrtoll_plain hminus, ite_digit]
    split_ifs <;> rfl

theorem isSpace_of_isDigit {c : Char} (h : c.isDigit = true) : isSpace c = false := by
  obtain ⟨hlow,hhigh⟩ : 48 ≤ c.toNat ∧ c.toNat ≤ 57 := Char.isDigit_iff_toNat.mp h
  have hne : ∀ d : Char, d.toNat < 48 ∨ 57 < d.toNat → c ≠ d := by
    rintro d hd rfl
    omega
  simp only [isSpace, Bool.or_eq_false_iff, decide_eq_false_iff_not, Bool.and_eq_false_iff]
  refine ⟨⟨hne _ (by decide),.inr fun hle => ?_⟩,hne _ (by decide)⟩
  have hreturn : c.toNat ≤ 13 := hle
  omega

/-- What `sscanf` accepts, and what it makes of it. -/
theorem sscanf_eq_some_iff {buf : List Char} {v : ℤ} :
    sscanf buf = some v ↔ ∃ n, Numeral isSpace buf n ∧ v = n.bmod (2^32) := by
  rw [sscanf_eq,Option.map_eq_some_iff]
  apply exists_congr
  intro n
  rw [scanInt_eq_some_iff (by decide) fun _ => isSpace_of_isDigit,eq_comm (a := v)]

/-- A text that was printed reads back as what was printed, behind any spaces and before anything but a digit. -/
theorem sscanf_sprintf {v : ℤ} (hv : v.bmod (2^32) = v) {spaces rest : List Char}
    (hspaces : ∀ c ∈ spaces, isSpace c = true) (hrest : ∀ c ∈ rest.head?, c.isDigit = false) :
    sscanf (spaces ++ (sprintf v ++ rest)) = some v :=
  sscanf_eq_some_iff.mpr ⟨v,numeral_toString isSpace hspaces hrest v,hv.symm⟩

theorem length_sprintf {v : ℤ} (hv : v.bmod (2^32) = v) : (sprintf v).length ≤ 11 := by
  have hlow := Int.le_bmod (x := v) (m := 2^32) (by decide)
  have hhigh := Int.bmod_lt (x := v) (m := 2^32) (by decide)
  have hdigits : (Nat.toDigits 10 v.natAbs).length ≤ 10 := by
    rw [Nat.length_toDigits_le_iff (by decide) (by decide)]
    omega
  rw [sprintf,toList_toString,List.length_append]
  split_ifs
  · rw [List.length_singleton]; omega
  · rw [List.length_nil]; omega

/-- The device with its list, the calls of `sysfs_show` that have raised their interrupt and not printed yet, and
what the others have printed. -/
structure State where
  loaded : Loaded
  shows : ℕ
  printed : List (List Char)

def State.value (s : State) : ℤ := s.loaded.sys.sysfsValue

inductive Act
  | store (buf : List Char)
  | raise
  | print
  | handler
  | work
  | tasklet

def State.after (s : State) (e : Interrupts.Event) : Option State :=
  (Interrupts.step s.loaded e).map fun t => {s with loaded := t}

/-- One step of a call of `sysfs_store` or `sysfs_show`, of the interrupt, of its work or of the tasklet. -/
def step (s : State) : Act → Option State
  | .store buf => s.after (.sysfsStore ((sscanf buf).getD s.value))
  | .raise => (s.after .sysfsShow).map fun t => {t with shows := t.shows+1}
  | .print =>
    if 0 < s.shows then some {s with shows := s.shows-1, printed := s.printed ++ [sprintf s.value]} else none
  | .handler => s.after .handler
  | .work => s.after .work
  | .tasklet => s.after .tasklet

def load : State := ⟨Interrupts.load,0,[]⟩

/-- The number in the text of a store. -/
def Act.scanned : Act → Option ℤ
  | .store buf => sscanf buf
  | _ => none

/-- What a register would print that holds the number of the last store that has one. -/
def Act.prints (v : ℤ) : Act → List (List Char)
  | .print => [sprintf v]
  | _ => []

def register (v : ℤ) : List Act → List (List Char)
  | [] => []
  | a::as => a.prints v ++ register (a.scanned.getD v) as

/-- The value that an event leaves behind. -/
def leaves (v : ℤ) : Interrupts.Event → ℤ
  | .sysfsStore w => w
  | _ => v

section Steps
variable {s t : State} {a : Act} {acts : List Act}

theorem stored {l m : Loaded} {e : Interrupts.Event} (h : Interrupts.step l e = some m) :
    m.sys.sysfsValue = leaves l.sys.sysfsValue e := by
  obtain ⟨u,hu,rfl⟩ := Option.map_eq_some_iff.mp h
  cases e with
  | sysfsStore v => cases hu; rfl
  | sysfsShow =>
    simp only [Event.act, Teardown.step, Option.ite_none_right_eq_some, Option.some.injEq] at hu
    obtain ⟨-,rfl⟩ := hu
    rfl
  | handler =>
    simp only [Event.act, Teardown.step, Teardown.irqHandler] at hu
    split at hu <;> cases hu <;> rfl
  | work =>
    simp only [Event.act, Teardown.step, Teardown.workqueueFn] at hu
    split at hu
    · split_ifs at hu; cases hu; rfl
    all_goals cases hu; rfl
  | tasklet =>
    simp only [Event.act, Teardown.step, Teardown.taskletFn] at hu
    split_ifs at hu <;> cases hu <;> rfl

theorem after_value {e : Interrupts.Event} (h : s.after e = some t) :
    t.value = leaves s.value e ∧ t.printed = s.printed ∧ Interrupts.step s.loaded e = some t.loaded := by
  obtain ⟨l,hl,rfl⟩ := Option.map_eq_some_iff.mp h
  exact ⟨stored hl,rfl,hl⟩

/-- A step is one of the register. -/
theorem step_register (h : step s a = some t) :
    t.value = a.scanned.getD s.value ∧ t.printed = s.printed ++ a.prints s.value := by
  cases a with
  | print =>
    simp only [step, Option.ite_none_right_eq_some, Option.some.injEq] at h
    obtain ⟨-,rfl⟩ := h
    exact ⟨rfl,rfl⟩
  | raise =>
    obtain ⟨u,hu,rfl⟩ := Option.map_eq_some_iff.mp h
    obtain ⟨hvalue,hprinted,-⟩ := after_value hu
    exact ⟨hvalue,hprinted.trans (List.append_nil _).symm⟩
  | store buf =>
    obtain ⟨hvalue,hprinted,-⟩ := after_value h
    exact ⟨hvalue,hprinted.trans (List.append_nil _).symm⟩
  | handler | work | tasklet =>
    obtain ⟨hvalue,hprinted,-⟩ := after_value h
    exact ⟨hvalue,hprinted.trans (List.append_nil _).symm⟩

theorem run_register (h : run step s acts = some t) : t.printed = s.printed ++ register s.value acts := by
  induction acts generalizing s with
  | nil => cases h; exact (List.append_nil _).symm
  | cons a acts ih =>
    obtain ⟨u,hu,ht⟩ := run_cons_eq_some.mp h
    obtain ⟨hvalue,hprinted⟩ := step_register hu
    rw [ih ht,hprinted,hvalue,List.append_assoc]
    rfl

/-- All that is stored, printed or in the list is of the kind `Q`. -/
structure Holds (Q : ℤ → Prop) (s : State) : Prop where
  value : Q s.value
  served : ∀ v ∈ served s.loaded.sys, Q v
  printed : ∀ p ∈ s.printed, ∃ v, Q v ∧ sprintf v = p

variable {Q : ℤ → Prop}

theorem holds_event {e : Interrupts.Event} {u : Loaded} (h : Interrupts.step s.loaded e = some u)
    (hQ : Q (leaves s.value e)) (hs : Holds Q s) : Q u.sys.sysfsValue ∧ ∀ v ∈ served u.sys, Q v := by
  refine ⟨(stored h).symm ▸ hQ,?_⟩
  cases step_moves h with
  | raise hserved | lose hserved | keep hserved =>
    rw [hserved]
    exact hs.served
  | serve hserved =>
    rw [hserved,List.forall_mem_append]
    exact ⟨hs.served,List.forall_mem_singleton.mpr hs.value⟩

theorem holds_after {e : Interrupts.Event} (h : s.after e = some t) (hQ : Q (leaves s.value e)) (hs : Holds Q s) :
    Holds Q t := by
  obtain ⟨l,hl,rfl⟩ := Option.map_eq_some_iff.mp h
  obtain ⟨hvalue,hserved⟩ := holds_event hl hQ hs
  exact ⟨hvalue,hserved,hs.printed⟩

theorem holds_step (h : step s a = some t) (hQ : ∀ v, a.scanned = some v → Q v) (hs : Holds Q s) : Holds Q t := by
  cases a with
  | store buf =>
    refine holds_after h ?_ hs
    show Q ((sscanf buf).getD s.value)
    cases hscan : sscanf buf with
    | none => exact hs.value
    | some v => exact hQ v hscan
  | raise =>
    obtain ⟨u,hu,rfl⟩ := Option.map_eq_some_iff.mp h
    obtain ⟨hvalue,hserved,hprinted⟩ := holds_after hu hs.value hs
    exact ⟨hvalue,hserved,hprinted⟩
  | print =>
    simp only [step, Option.ite_none_right_eq_some, Option.some.injEq] at h
    obtain ⟨-,rfl⟩ := h
    refine ⟨hs.value,hs.served,List.forall_mem_append.mpr ⟨hs.printed,?_⟩⟩
    exact List.forall_mem_singleton.mpr ⟨s.value,hs.value,rfl⟩
  | handler => exact holds_after h hs.value hs
  | work => exact holds_after h hs.value hs
  | tasklet => exact holds_after h hs.value hs

theorem holds_run (h : run step s acts = some t) (hQ : ∀ a ∈ acts, ∀ v, a.scanned = some v → Q v)
    (hs : Holds Q s) : Holds Q t := by
  induction acts generalizing s with
  | nil => cases h; exact hs
  | cons a acts ih =>
    obtain ⟨u,hu,ht⟩ := run_cons_eq_some.mp h
    obtain ⟨ha,hrest⟩ := List.forall_mem_cons.mp hQ
    exact ih ht hrest (holds_step hu ha hs)

end Steps

/-- The number of a store in the run, or the first value. -/
def Stored (acts : List Act) (v : ℤ) : Prop := v = 0 ∨ ∃ buf, .store buf ∈ acts ∧ sscanf buf = some v

theorem Stored.int {acts : List Act} {v : ℤ} (h : Stored acts v) : v.bmod (2^32) = v := by
  obtain rfl | ⟨buf,-,hscan⟩ := h
  · decide
  · obtain ⟨n,-,rfl⟩ := sscanf_eq_some_iff.mp hscan
    exact Int.bmod_bmod

theorem holds_stored {acts : List Act} {s : State} (h : run step load acts = some s) : Holds (Stored acts) s := by
  refine holds_run h (fun a ha v hv => ?_) ⟨.inl rfl,by simp [load, Interrupts.load, served, carried, Teardown.loaded],
    List.forall_mem_nil _⟩
  cases a with
  | store buf => exact .inr ⟨buf,ha,hv⟩
  | _ => contradiction

/-- Whatever texts are stored, by whomever and between whatever steps of the interrupts: what is printed is what a
register prints that takes the number at the start of each text, modulo the width of `int`; a printed text fits and
can be stored again, with any spaces and any other text around it, to be printed again; and the list has no number
but those stored and the 0 that a show finds before the first store. -/
theorem sysfs_round_trip {acts : List Act} {s : State} (h : run step load acts = some s) :
    s.printed = register 0 acts ∧
    (∀ buf v, sscanf buf = some v ↔ ∃ n, Numeral isSpace buf n ∧ v = n.bmod (2^32)) ∧
    (∀ p ∈ s.printed, p.length ≤ 11 ∧ ∀ spaces rest, (∀ c ∈ spaces, isSpace c = true) →
      (∀ c ∈ rest.head?, c.isDigit = false) → (sscanf (spaces ++ (p ++ rest))).map sprintf = some p) ∧
    ∀ n ∈ s.loaded.sys.headNode, Stored acts n.data := by
  have hs := holds_stored h
  refine ⟨run_register h,fun _ _ => sscanf_eq_some_iff,fun p hp => ?_,fun n hn => ?_⟩
  · obtain ⟨v,hv,rfl⟩ := hs.printed p hp
    refine ⟨length_sprintf hv.int,fun spaces rest hspaces hrest => ?_⟩
    rw [sscanf_sprintf hv.int hspaces hrest,Option.map_some]
  · exact hs.served _ (List.mem_append_left _ (List.mem_map_of_mem hn))

/-- A negative number, shown with its interrupt and work; then one that wraps, and a text without a number. -/
def exchanged : List Act :=
  [.store [' ','-','4','2','\n'],.raise,.handler,.handler,.handler,.work,.work,.work,.print,
    .store ['4','2','9','4','9','6','7','2','9','7','x'],.raise,.store ['-',' ','7'],.print]

theorem sysfs_round_trip_exchanged : ∃ s, run step load exchanged = some s ∧
    s.printed = [['-','4','2'],['1']] ∧ s.loaded.sys.headNode.map Teardown.MyList.data = [-42] ∧
      ∀ n ∈ s.loaded.sys.headNode, Stored exchanged n.data := by
  obtain ⟨s,hs,hp⟩ := exists_of_run_any step load exchanged
    (fun s => s.printed = [['-','4','2'],['1']] ∧ s.loaded.sys.headNode.map Teardown.MyList.data = [-42])
    (by decide +kernel)
  obtain ⟨hprinted,hlist⟩ := of_decide_eq_true hp
  exact ⟨s,hs,hprinted,hlist,(sysfs_round_trip hs).2.2.2⟩

end ExampleKernel.GlobalMem.Sysfs
