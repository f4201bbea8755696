import ExampleKernel.Foundation.Transition

/-! Init functions that acquire resources one call after the other and jump to a ladder of labels
when a call fails, and modules that are loaded and unloaded any number of times. -/
namespace ExampleKernel.Kernel
open ExampleKernel.Foundation

/-- What an init function does when a call fails: `undo` is a jump to a label, from which on the
given resources are released; with `oops` the invalid result is used. A call may also have no way to
fail, or its result may be ignored. -/
inductive Failure (ρ : Type)
  | never
  | ignored
  | undo (release : List ρ → List ρ)
  | oops

/-- A call of an init function, with what it acquires. -/
structure Rung (κ ρ : Type) where
  call : κ
  acquires : List ρ
  failure : Failure ρ

inductive Result
  | ok
  | error
  | oops
  deriving DecidableEq, Repr

/-- How a load or an unload went: what the module had acquired, and what it released, in order. -/
structure Attempt (ρ : Type) where
  result : Result
  acquired : List ρ
  released : List ρ
  deriving DecidableEq

section Ladder
variable {κ ρ : Type}

def Rung.succeeds (r : Rung κ ρ) (ok : κ → Bool) : Bool :=
  match r.failure with
  | .never => true
  | _ => ok r.call

/-- Run an init function, with the outcomes of its calls given by `ok`. -/
def attempt (ok : κ → Bool) : List (Rung κ ρ) → List ρ → Attempt ρ
  | [], held => ⟨.ok,held,[]⟩
  | r::rs, held =>
    if r.succeeds ok then attempt ok rs (held ++ r.acquires)
    else match r.failure with
      | .never | .ignored => attempt ok rs held
      | .undo release => ⟨.error,held,release held⟩
      | .oops => ⟨.oops,held,[]⟩

/-- The calls that fail, up to the one that ends the attempt. -/
def failing (ok : κ → Bool) : List (Rung κ ρ) → List κ
  | [] => []
  | r::rs =>
    if r.succeeds ok then failing ok rs
    else r.call :: match r.failure with
      | .never | .ignored => failing ok rs
      | .undo _ | .oops => []

/-- The ways through an init function: the calls that fail on each, and how the attempt ends. -/
def paths : List (Rung κ ρ) → List ρ → List (List κ × Attempt ρ)
  | [], held => [([],⟨.ok,held,[]⟩)]
  | r::rs, held => paths rs (held ++ r.acquires) ++ match r.failure with
    | .never => []
    | .ignored => (paths rs held).map fun p => (r.call::p.1,p.2)
    | .undo release => [([r.call],⟨.error,held,release held⟩)]
    | .oops => [([r.call],⟨.oops,held,[]⟩)]

/-- Every assignment of outcomes takes one of the ways. -/
theorem attempt_mem_paths (ok : κ → Bool) (rs : List (Rung κ ρ)) (held : List ρ) :
    (failing ok rs,attempt ok rs held) ∈ paths rs held := by
  induction rs generalizing held with
  | nil => exact List.mem_singleton.mpr rfl
  | cons r rs ih =>
    rw [paths,List.mem_append]
    by_cases hs : r.succeeds ok = true
    · left
      simpa only [failing, attempt, hs, if_true] using ih _
    · right
      rw [failing,attempt,if_neg hs,if_neg hs]
      cases hf : r.failure with
      | never => simp [Rung.succeeds, hf] at hs
      | ignored => exact List.mem_map.mpr ⟨_,ih held,rfl⟩
      | undo release => exact List.mem_singleton.mpr rfl
      | oops => exact List.mem_singleton.mpr rfl

/-- What holds on each way holds for each assignment of outcomes. -/
theorem attempt_of_paths {Q : List κ → Attempt ρ → Prop} {rs : List (Rung κ ρ)} {held : List ρ}
    (h : ∀ p ∈ paths rs held, Q p.1 p.2) (ok : κ → Bool) : Q (failing ok rs) (attempt ok rs held) :=
  h _ (attempt_mem_paths ok rs held)

theorem failing_eq_nil {ok : κ → Bool} {rs : List (Rung κ ρ)} :
    failing ok rs = [] ↔ ∀ r ∈ rs, r.succeeds ok = true := by
  induction rs with
  | nil => simp [failing]
  | cons r rs ih =>
    rw [failing,List.forall_mem_cons]
    split_ifs with hs
    · simp [hs, ih]
    · simp [hs]

theorem not_ok_of_mem_failing {ok : κ → Bool} {rs : List (Rung κ ρ)} {c : κ} (h : c ∈ failing ok rs) :
    ok c = false := by
  induction rs with
  | nil => cases h
  | cons r rs ih =>
    rw [failing] at h
    split_ifs at h with hs
    · exact ih h
    · obtain rfl | h := List.mem_cons.mp h
      · cases hf : r.failure <;> simp_all [Rung.succeeds]
      · cases hf : r.failure <;> rw [hf] at h
        case never | ignored => exact ih h
        all_goals cases h

/-- An init function that returns 0 has released nothing. -/
theorem attempt_ok {ok : κ → Bool} {rs : List (Rung κ ρ)} {held : List ρ} (h : (attempt ok rs held).result = .ok) :
    (attempt ok rs held).released = [] := by
  induction rs generalizing held with
  | nil => rfl
  | cons r rs ih =>
    unfold attempt at h ⊢
    split_ifs at h ⊢ with hs
    · exact ih h
    · cases hf : r.failure with
      | never => rw [hf] at h; exact ih h
      | ignored => rw [hf] at h; exact ih h
      | undo release => rw [hf] at h; contradiction
      | oops => rfl

theorem attempt_append (ok : κ → Bool) (rs rs' : List (Rung κ ρ)) (held : List ρ) :
    attempt ok (rs ++ rs') held =
      if (attempt ok rs held).result = .ok then attempt ok rs' (attempt ok rs held).acquired
      else attempt ok rs held := by
  induction rs generalizing held with
  | nil => rfl
  | cons r rs ih =>
    rw [List.cons_append]
    by_cases hs : r.succeeds ok = true
    · simp only [attempt, if_pos hs]
      exact ih _
    · simp only [attempt, if_neg hs]
      cases r.failure with
      | never => exact ih held
      | ignored => exact ih held
      | undo release => rfl
      | oops => rfl

theorem failing_append (ok : κ → Bool) (rs rs' : List (Rung κ ρ)) (held : List ρ) :
    failing ok (rs ++ rs') =
      failing ok rs ++ if (attempt ok rs held).result = .ok then failing ok rs' else [] := by
  induction rs generalizing held with
  | nil => rfl
  | cons r rs ih =>
    rw [List.cons_append]
    by_cases hs : r.succeeds ok = true
    · simp only [failing, attempt, if_pos hs]
      exact ih _
    · simp only [failing, attempt, if_neg hs, List.cons_append]
      cases r.failure with
      | never => exact congrArg _ (ih held)
      | ignored => exact congrArg _ (ih held)
      | undo release => rfl
      | oops => rfl

end Ladder

section Attempts
variable {ρ : Type} [DecidableEq ρ]

/-- What stays behind. -/
def Attempt.leaks (a : Attempt ρ) : List ρ := a.acquired.diff a.released

/-- What was released without being held, a second release included. -/
def Attempt.strays (a : Attempt ρ) : List ρ := a.released.diff a.acquired

/-- A load that fails leaves nothing behind, and one that succeeds holds what `K` asks for. -/
def Attempt.Clean (K : List ρ → Prop) (a : Attempt ρ) : Prop :=
  match a.result with
  | .error => a.leaks = []
  | .ok => K a.acquired
  | .oops => False

instance (K : List ρ → Prop) [DecidablePred K] (a : Attempt ρ) : Decidable (a.Clean K) := by
  unfold Attempt.Clean
  split <;> infer_instance

/-- Everything is released, each thing once, and nothing else. -/
def Attempt.Exact (a : Attempt ρ) : Prop := a.result = .ok ∧ a.leaks = [] ∧ a.strays = []

instance (a : Attempt ρ) : Decidable a.Exact := inferInstanceAs (Decidable (_ ∧ _ ∧ _))

theorem diff_self (l : List ρ) : l.diff l = [] :=
  List.eq_nil_iff_forall_not_mem.mpr fun x hx => by
    have hpos := List.count_pos_iff.mpr hx
    rw [List.count_diff,Nat.sub_self] at hpos
    exact lt_irrefl 0 hpos

/-- To release everything in whatever order leaves nothing behind, and is no stray release. -/
theorem exact_of_perm {a : Attempt ρ} (h : a.released.Perm a.acquired) : a.leaks = [] ∧ a.strays = [] := by
  constructor
  · rw [Attempt.leaks,h.diff_left]
    exact diff_self _
  · rw [Attempt.strays,← h.diff_left]
    exact diff_self _

end Attempts

/-- `exit` gives the result of an exit function and what it releases, from what the module holds;
`shared` are the resources that somebody else may hold under the same name. The parameter of `init`
is what the kernel chooses in an attempt, such as the number of a region. -/
structure Driver (ν κ ρ : Type) where
  init : ν → List (Rung κ ρ)
  exit : List ρ → Result × List ρ
  shared : ρ → Bool

/-- `held` is what all attempts so far have left in the hands of the module, `loaded` what the
module holds between an init that returned 0 and its exit. `stray` is history: the releases of what the
module did not hold, with whether somebody else held it. -/
structure World (ρ : Type) where
  held : List ρ
  loaded : Option (List ρ)
  crashed : Bool
  others : ρ → Bool
  stray : List (ρ × Bool)

inductive LoadAct (ν κ ρ : Type)
  | load (v : ν) (ok : κ → Bool)
  | unload
  | request (x : ρ)
  | free (x : ρ)

def World.start {ρ : Type} : World ρ where
  held := []
  loaded := none
  crashed := false
  others _ := false
  stray := []

/-- Nothing is held except by a loaded module, which holds what `K` asks for. -/
structure World.Settled {ρ : Type} (K : List ρ → Prop) (w : World ρ) : Prop where
  running : w.crashed = false
  held : w.held = w.loaded.getD []
  loaded : ∀ h, w.loaded = some h → K h

theorem settled_start {ρ : Type} (K : List ρ → Prop) : World.start.Settled K :=
  ⟨rfl,rfl,fun _ h => by cases h⟩

section Runs
variable {ν κ ρ : Type} [DecidableEq ρ]

/-- Settle the accounts after an attempt of a module that held `before`. -/
def World.settle (w : World ρ) (before : List ρ) (a : Attempt ρ) (loaded : Option (List ρ)) : World ρ where
  held := w.held.diff before ++ a.leaks
  loaded := loaded
  crashed := a.result = .oops
  others x := w.others x && x ∉ a.strays
  stray := w.stray ++ a.strays.map fun x => (x,w.others x)

/-- No call acquires what somebody else holds. -/
def World.admits (w : World ρ) (rs : List (Rung κ ρ)) (ok : κ → Bool) : Bool :=
  rs.all fun r => r.acquires.all fun x => !(w.others x && ok r.call)

variable (D : Driver ν κ ρ)

/-- One attempt to load, one unload, or another driver that requests or frees something. -/
def Driver.step (w : World ρ) : LoadAct ν κ ρ → Option (World ρ)
  | .load v ok =>
    if w.loaded.isNone && !w.crashed && w.admits (D.init v) ok then
      let a := attempt ok (D.init v) []
      some (w.settle [] a (if a.result = .ok then some a.acquired else none))
    else none
  | .unload => w.loaded.map fun held => w.settle held ⟨(D.exit held).1,held,(D.exit held).2⟩ none
  | .request x =>
    if D.shared x && !w.others x && x ∉ w.held then some {w with others := Function.update w.others x true}
    else none
  | .free x => if w.others x then some {w with others := Function.update w.others x false} else none

/-- A load is clean, and releases nothing without holding it of the kind `q`. -/
def Driver.Loads (K : List ρ → Prop) (q : ρ × Bool → Bool) (w : World ρ) : LoadAct ν κ ρ → Prop
  | .load v ok =>
    (attempt ok (D.init v) []).Clean K ∧ ∀ x ∈ (attempt ok (D.init v) []).strays, q (x,w.others x) = false
  | _ => True

variable {D}

/-- Only what a successful init acquired is ever held by a loaded module. -/
def Driver.Loaded (D : Driver ν κ ρ) (w : World ρ) : Prop :=
  ∀ h, w.loaded = some h → ∃ v ok, (attempt ok (D.init v) []).result = .ok ∧ (attempt ok (D.init v) []).acquired = h

theorem loaded_step {w w' : World ρ} {a : LoadAct ν κ ρ} (h : D.step w a = some w') (hw : D.Loaded w) :
    D.Loaded w' := by
  cases a with
  | load v ok =>
    simp only [Driver.step, Option.ite_none_right_eq_some, Option.some.injEq] at h
    obtain ⟨-,rfl⟩ := h
    intro held hheld
    simp only [World.settle, Option.ite_none_right_eq_some, Option.some.injEq] at hheld
    exact ⟨v,ok,hheld⟩
  | unload =>
    simp only [Driver.step, Option.map_eq_some_iff] at h
    obtain ⟨held,-,rfl⟩ := h
    intro _ hnone
    cases hnone
  | request x =>
    simp only [Driver.step, Option.ite_none_right_eq_some, Option.some.injEq] at h
    obtain ⟨-,rfl⟩ := h
    exact hw
  | free x =>
    simp only [Driver.step, Option.ite_none_right_eq_some, Option.some.injEq] at h
    obtain ⟨-,rfl⟩ := h
    exact hw

/-- What somebody else holds has a name that can be shared. -/
def Driver.Shared (D : Driver ν κ ρ) (w : World ρ) : Prop := ∀ x, w.others x = true → D.shared x = true

theorem shared_step {w w' : World ρ} {a : LoadAct ν κ ρ} (h : D.step w a = some w') (hw : D.Shared w) :
    D.Shared w' := by
  cases a with
  | load v ok =>
    simp only [Driver.step, Option.ite_none_right_eq_some, Option.some.injEq] at h
    obtain ⟨-,rfl⟩ := h
    intro x hx
    exact hw x (Bool.and_eq_true_iff.mp hx).1
  | unload =>
    simp only [Driver.step, Option.map_eq_some_iff] at h
    obtain ⟨held,-,rfl⟩ := h
    intro x hx
    exact hw x (Bool.and_eq_true_iff.mp hx).1
  | request y =>
    simp only [Driver.step, Option.ite_none_right_eq_some, Option.some.injEq, Bool.and_eq_true] at h
    obtain ⟨⟨⟨hy,-⟩,-⟩,rfl⟩ := h
    intro x hx
    by_cases hxy : x = y
    · rw [hxy]; exact hy
    · exact hw x (by simpa [Function.update_of_ne hxy] using hx)
  | free y =>
    simp only [Driver.step, Option.ite_none_right_eq_some, Option.some.injEq] at h
    obtain ⟨-,rfl⟩ := h
    intro x hx
    by_cases hxy : x = y
    · rw [hxy] at hx; simp at hx
    · exact hw x (by simpa [Function.update_of_ne hxy] using hx)

/-- A load keeps the accounts settled exactly when it is clean. -/
theorem settled_load {K : List ρ → Prop} {w : World ρ} (hw : w.Settled K) (hnone : w.loaded = none)
    (rs : List (Rung κ ρ)) (ok : κ → Bool) :
    (w.settle [] (attempt ok rs []) (if (attempt ok rs []).result = .ok then some (attempt ok rs []).acquired
      else none)).Settled K ↔ (attempt ok rs []).Clean K := by
  have hheld : w.held = [] := by rw [hw.held,hnone]; rfl
  unfold Attempt.Clean
  cases hresult : (attempt ok rs []).result with
  | ok =>
    rw [if_pos rfl]
    have hleaks : (attempt ok rs []).leaks = (attempt ok rs []).acquired := by
      rw [Attempt.leaks,attempt_ok hresult,List.diff_nil]
    constructor
    · intro h; exact h.loaded _ rfl
    · intro hK
      refine ⟨by simp [World.settle, hresult],?_,fun h hh => by cases hh; exact hK⟩
      simp [World.settle, hheld, hleaks]
  | error =>
    rw [if_neg (by decide)]
    constructor
    · intro h
      simpa [World.settle, hheld] using h.held
    · intro hleaks
      exact ⟨by simp [World.settle, hresult],by simp [World.settle, hheld, hleaks],fun h hh => by cases hh⟩
  | oops =>
    rw [if_neg (by decide)]
    exact ⟨fun h => by simpa [World.settle, hresult] using h.running,False.elim⟩

/-- An exit that releases exactly what is held leaves the accounts settled, and no stray release. -/
theorem settled_unload {K : List ρ → Prop} {w : World ρ} {held : List ρ} (hw : w.Settled K)
    (hloaded : w.loaded = some held) {a : Attempt ρ} (ha : a.Exact) :
    (w.settle held a none).Settled K ∧ (w.settle held a none).stray = w.stray := by
  obtain ⟨hresult,hleaks,hstrays⟩ := ha
  have hheld : w.held = held := by rw [hw.held,hloaded]; rfl
  refine ⟨⟨by simp [World.settle, hresult],?_,fun h hh => by cases hh⟩,by simp [World.settle, hstrays]⟩
  simp [World.settle, hheld, hleaks, diff_self]

/-- When exit releases exactly what `K` allows to be held, a run stays settled, without a stray
release of the kind `q`, exactly as long as its loads are clean and make none. -/
theorem always_settled_iff {K : List ρ → Prop} {q : ρ × Bool → Bool}
    (hexit : ∀ v ok, (attempt ok (D.init v) []).result = .ok → K (attempt ok (D.init v) []).acquired →
      (Attempt.mk (D.exit (attempt ok (D.init v) []).acquired).1 (attempt ok (D.init v) []).acquired
        (D.exit (attempt ok (D.init v) []).acquired).2).Exact)
    {acts : List (LoadAct ν κ ρ)} {w : World ρ} (h : run D.step World.start acts = some w) :
    Always D.step (fun w => w.Settled K ∧ ∀ p ∈ w.stray, q p = false) World.start acts ↔
      Meets D.step (D.Loads K q) World.start acts := by
  refine always_iff_meets (I := D.Loaded) (fun _ _ _ => loaded_step) ?_ h (fun _ h => by cases h)
    ⟨settled_start K,by simp [World.start]⟩
  rintro w a w' hstep hloaded ⟨hw,hstray⟩
  cases a with
  | load v ok =>
    simp only [Driver.step, Option.ite_none_right_eq_some, Option.some.injEq, Bool.and_eq_true,
      Option.isNone_iff_eq_none] at hstep
    obtain ⟨⟨⟨hnone,-⟩,-⟩,rfl⟩ := hstep
    apply and_congr (settled_load hw hnone _ ok)
    simp only [World.settle, List.forall_mem_append, List.forall_mem_map]
    exact and_iff_right hstray
  | unload =>
    simp only [Driver.step, Option.map_eq_some_iff] at hstep
    obtain ⟨held,hheld,rfl⟩ := hstep
    obtain ⟨v,ok,hok,rfl⟩ := hloaded held hheld
    obtain ⟨hsettled,hsame⟩ := settled_unload hw hheld (hexit v ok hok (hw.loaded _ hheld))
    refine iff_of_true ⟨hsettled,?_⟩ trivial
    rw [hsame]
    exact hstray
  | request x =>
    simp only [Driver.step, Option.ite_none_right_eq_some, Option.some.injEq] at hstep
    obtain ⟨-,rfl⟩ := hstep
    exact iff_of_true ⟨⟨hw.running,hw.held,hw.loaded⟩,hstray⟩ trivial
  | free x =>
    simp only [Driver.step, Option.ite_none_right_eq_some, Option.some.injEq] at hstep
    obtain ⟨-,rfl⟩ := hstep
    exact iff_of_true ⟨⟨hw.running,hw.held,hw.loaded⟩,hstray⟩ trivial

/-- Whatever was released without being held was nobody's. -/
def World.Considerate (w : World ρ) : Prop := ∀ p ∈ w.stray, p.2 = false

theorem considerate_settle {w : World ρ} {before : List ρ} {a : Attempt ρ} {loaded : Option (List ρ)}
    (hw : w.Considerate) (ha : ∀ x ∈ a.strays, w.others x = false) : (w.settle before a loaded).Considerate :=
  List.forall_mem_append.mpr ⟨hw,List.forall_mem_map.mpr ha⟩

/-- When every load is clean and makes no stray release, and every exit leaves nothing behind and strays only to
what nobody else can hold, a run stays settled whatever calls fail, and takes nothing from others. -/
theorem settled_of_clean {K : List ρ → Prop}
    (hload : ∀ v ok, (attempt ok (D.init v) []).Clean K ∧ (attempt ok (D.init v) []).strays = [])
    (hexit : ∀ v ok, (attempt ok (D.init v) []).result = .ok →
      (D.exit (attempt ok (D.init v) []).acquired).1 = .ok ∧
      (Attempt.mk .ok (attempt ok (D.init v) []).acquired (D.exit (attempt ok (D.init v) []).acquired).2).leaks = [] ∧
      ∀ x ∈ (Attempt.mk .ok (attempt ok (D.init v) []).acquired (D.exit (attempt ok (D.init v) []).acquired).2).strays,
        D.shared x = false)
    {acts : List (LoadAct ν κ ρ)} {w : World ρ} (h : run D.step World.start acts = some w) :
    w.Settled K ∧ w.Considerate := by
  have hinv : (w.Settled K ∧ w.Considerate) ∧ D.Loaded w ∧ D.Shared w := by
    refine run_invariant (I := fun w => (w.Settled K ∧ w.Considerate) ∧ D.Loaded w ∧ D.Shared w) ?_ h
      ⟨⟨settled_start K,List.forall_mem_nil _⟩,(fun _ hh => by cases hh),fun _ hx => by cases hx⟩
    rintro w a w' hstep ⟨⟨hw,hstray⟩,hloaded,hshared⟩
    refine ⟨?_,loaded_step hstep hloaded,shared_step hstep hshared⟩
    cases a with
    | load v ok =>
      simp only [Driver.step, Option.ite_none_right_eq_some, Option.some.injEq, Bool.and_eq_true,
        Option.isNone_iff_eq_none] at hstep
      obtain ⟨⟨⟨hnone,-⟩,-⟩,rfl⟩ := hstep
      refine ⟨(settled_load hw hnone _ ok).mpr (hload v ok).1,considerate_settle hstray fun x hx => ?_⟩
      rw [(hload v ok).2] at hx
      cases hx
    | unload =>
      simp only [Driver.step, Option.map_eq_some_iff] at hstep
      obtain ⟨held,hheld,rfl⟩ := hstep
      obtain ⟨v,ok,hok,rfl⟩ := hloaded held hheld
      obtain ⟨hresult,hleaks,hstrays⟩ := hexit v ok hok
      have hsame : w.held = (attempt ok (D.init v) []).acquired := by rw [hw.held,hheld]; rfl
      rw [hresult]
      refine ⟨⟨by simp [World.settle],?_,fun h hh => by cases hh⟩,considerate_settle hstray fun x hx => ?_⟩
      · simp only [World.settle, hsame, diff_self, hleaks, Option.getD_none, List.append_nil]
      · by_contra hother
        exact Bool.eq_false_iff.mp (hstrays x hx) (hshared x (Bool.eq_true_of_not_eq_false hother))
    | request x =>
      simp only [Driver.step, Option.ite_none_right_eq_some, Option.some.injEq] at hstep
      obtain ⟨-,rfl⟩ := hstep
      exact ⟨⟨hw.running,hw.held,hw.loaded⟩,hstray⟩
    | free x =>
      simp only [Driver.step, Option.ite_none_right_eq_some, Option.some.injEq] at hstep
      obtain ⟨-,rfl⟩ := hstep
      exact ⟨⟨hw.running,hw.held,hw.loaded⟩,hstray⟩
  exact hinv.1

end Runs

end ExampleKernel.Kernel
