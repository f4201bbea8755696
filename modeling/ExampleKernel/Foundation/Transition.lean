import Mathlib.Tactic

/-! Executable runs of a partial step function, and the rules that lift a fact about
one step to every run: invariants, invariants under a condition on the steps, simulations, and
the runs of one component among others. -/
namespace ExampleKernel.Foundation

variable {σ α : Type*}

/-- Execute a list of actions in order. A disabled action ends the run without a state. -/
def run (step : σ → α → Option σ) : σ → List α → Option σ
  | s, [] => some s
  | s, a::as => (step s a).bind fun t => run step t as

@[simp] theorem run_nil (step : σ → α → Option σ) (s : σ) : run step s [] = some s := rfl

theorem run_cons_eq_some {step : σ → α → Option σ} {s u : σ} {a : α} {as : List α} :
    run step s (a::as) = some u ↔ ∃ t, step s a = some t ∧ run step t as = some u := by
  simp only [run, Option.bind_eq_some_iff]

theorem run_append_eq_some {step : σ → α → Option σ} {s u : σ} {as bs : List α} :
    run step s (as ++ bs) = some u ↔ ∃ t, run step s as = some t ∧ run step t bs = some u := by
  induction as generalizing s with
  | nil => simp
  | cons a as ih =>
    simp only [List.cons_append, run_cons_eq_some, ih]
    constructor
    · rintro ⟨t,ht,v,hv,hu⟩; exact ⟨v,⟨t,ht,hv⟩,hu⟩
    · rintro ⟨v,⟨t,ht,hv⟩,hu⟩; exact ⟨t,ht,v,hv,hu⟩

theorem run_concat_eq_some {step : σ → α → Option σ} {s u : σ} {as : List α} {a : α} :
    run step s (as ++ [a]) = some u ↔ ∃ t, run step s as = some t ∧ step t a = some u := by
  simp [run_append_eq_some, run_cons_eq_some]

/-- Evaluating a boolean on the last state of a concrete run exhibits such a state. -/
theorem exists_of_run_any (step : σ → α → Option σ) (s : σ) (as : List α) (p : σ → Bool)
    (h : (run step s as).any p = true) : ∃ u, run step s as = some u ∧ p u = true := by
  simpa [Option.any_eq_true_iff_get, Option.eq_some_iff_get_eq, exists_comm] using h

/-- What every single step preserves holds after every run. -/
theorem run_invariant {step : σ → α → Option σ} {I : σ → Prop}
    (hstep : ∀ s a t, step s a = some t → I s → I t) {s u : σ} {as : List α}
    (h : run step s as = some u) (hs : I s) : I u := by
  induction as generalizing s with
  | nil => cases h; exact hs
  | cons a as ih =>
    obtain ⟨t,ht,hu⟩ := run_cons_eq_some.mp h
    exact ih hu (hstep s a t ht hs)

/-- The same for the loop of a program. -/
theorem foldlM_invariant {f : σ → α → Option σ} {I : σ → Prop}
    (hstep : ∀ s a t, f s a = some t → I s → I t) {s u : σ} {as : List α}
    (h : as.foldlM f s = some u) (hs : I s) : I u := by
  induction as generalizing s with
  | nil => cases h; exact hs
  | cons a as ih =>
    obtain ⟨t,ht,hu⟩ := Option.bind_eq_some_iff.mp h
    exact ih hu (hstep s a t ht hs)

/-- A run of a step relation. -/
inductive Path {τ : Type*} (Step : τ → α → τ → Prop) : τ → List α → τ → Prop
  | nil (t : τ) : Path Step t [] t
  | cons {t u v : τ} {a : α} {as : List α} (head : Step t a u) (tail : Path Step u as v) :
      Path Step t (a::as) v

/-- Forgetting a part of the state that no step depends on forgets it of every run. -/
theorem run_map {τ : Type*} {step : σ → α → Option σ} {step' : τ → α → Option τ} {f : σ → τ}
    (hstep : ∀ s a, (step s a).map f = step' (f s) a) (s : σ) (as : List α) :
    (run step s as).map f = run step' (f s) as := by
  induction as generalizing s with
  | nil => rfl
  | cons a as ih =>
    have ha := hstep s a
    cases h : step s a with
    | none =>
      rw [h] at ha
      simp only [run, h, ← ha, Option.map_none, Option.bind_none]
    | some t =>
      rw [h] at ha
      simp only [run, h, ← ha, Option.map_some, Option.bind_some]
      exact ih t

/-- Forward simulation: a related state is reached by a path over the same actions. -/
theorem run_simulation {τ : Type*} {step : σ → α → Option σ} {Step : τ → α → τ → Prop}
    {R : σ → τ → Prop} {as : List α}
    (hstep : ∀ a ∈ as, ∀ s t s', R s t → step s a = some s' → ∃ t', Step t a t' ∧ R s' t')
    {s s' : σ} {t : τ} (h : run step s as = some s') (hR : R s t) :
    ∃ t', Path Step t as t' ∧ R s' t' := by
  induction as generalizing s t with
  | nil => cases h; exact ⟨t,.nil t,hR⟩
  | cons a as ih =>
    obtain ⟨m,hm,hrest⟩ := run_cons_eq_some.mp h
    obtain ⟨u,hu,hRu⟩ := hstep a List.mem_cons_self s t m hR hm
    obtain ⟨v,hv,hRv⟩ := ih (fun b hb => hstep b (List.mem_cons_of_mem _ hb)) hrest hRu
    exact ⟨v,.cons hu hv,hRv⟩

section Rel
variable {τ : Type*} {R : σ → τ → Prop}

theorem isSome_of_rel {x : Option σ} {y : Option τ} (h : Option.Rel R x y) : x.isSome = y.isSome := by
  cases h <;> rfl

theorem exists_of_rel {s : σ} {y : Option τ} (h : Option.Rel R (some s) y) : ∃ t, y = some t ∧ R s t := by
  cases h with
  | some hR => exact ⟨_,rfl,hR⟩

theorem exists_of_rel_right {x : Option σ} {t : τ} (h : Option.Rel R x (some t)) : ∃ s, x = some s ∧ R s t := by
  cases h with
  | some hR => exact ⟨_,rfl,hR⟩

/-- Two computations that stop together, or go on from related states. -/
theorem bind_rel {x : Option σ} {y : Option τ} {f : σ → Option σ} {g : τ → Option τ} (h : Option.Rel R x y)
    (hfg : ∀ s t, R s t → Option.Rel R (f s) (g t)) : Option.Rel R (x.bind f) (y.bind g) := by
  cases h with
  | none => exact .none
  | some hR => exact hfg _ _ hR

/-- Loops over one list whose bodies keep two states related, or stop together. -/
theorem foldlM_rel {f : σ → α → Option σ} {g : τ → α → Option τ}
    (hstep : ∀ s t a, R s t → Option.Rel R (f s a) (g t a)) {s : σ} {t : τ} (hR : R s t) (as : List α) :
    Option.Rel R (as.foldlM f s) (as.foldlM g t) := by
  induction as generalizing s t with
  | nil => exact .some hR
  | cons a as ih =>
    rw [List.foldlM_cons,List.foldlM_cons]
    exact bind_rel (hstep s t a hR) fun _ _ hR' => ih hR'

/-- Two programs with corresponding actions and related answers to each have related runs. -/
theorem run_rel {β : Type*} {step : σ → β → Option σ} {step' : τ → α → Option τ} {f : α → β}
    (hstep : ∀ s t a, R s t → Option.Rel R (step s (f a)) (step' t a)) {s : σ} {t : τ} (hR : R s t)
    (as : List α) : Option.Rel R (run step s (as.map f)) (run step' t as) := by
  induction as generalizing s t with
  | nil => exact .some hR
  | cons a as ih => exact bind_rel (hstep s t a hR) fun _ _ hR' => ih hR'

end Rel

/-- Every step of the run is taken in a state where the condition `C` allows it. -/
def Meets (step : σ → α → Option σ) (C : σ → α → Prop) : σ → List α → Prop
  | _, [] => True
  | s, a::as => C s a ∧ ∀ t, step s a = some t → Meets step C t as

/-- A condition that follows from an invariant of the run is met throughout. -/
theorem meets_of_invariant {step : σ → α → Option σ} {C : σ → α → Prop} {I : σ → Prop} {as : List α}
    (hstep : ∀ a ∈ as, ∀ s t, step s a = some t → I s → I t) (hC : ∀ a ∈ as, ∀ s, I s → C s a)
    {s : σ} (hs : I s) : Meets step C s as := by
  induction as generalizing s with
  | nil => trivial
  | cons a as ih =>
    refine ⟨hC a List.mem_cons_self s hs,fun t ht => ?_⟩
    exact ih (fun b hb => hstep b (List.mem_cons_of_mem _ hb)) (fun b hb => hC b (List.mem_cons_of_mem _ hb))
      (hstep a List.mem_cons_self s t ht hs)

/-- Conditions that agree wherever an invariant holds are met by the same runs. -/
theorem meets_congr {step : σ → α → Option σ} {C D : σ → α → Prop} {I : σ → Prop}
    (hstep : ∀ s a t, step s a = some t → I s → I t) (hCD : ∀ s a, I s → (C s a ↔ D s a))
    {s : σ} (hs : I s) (as : List α) : Meets step C s as ↔ Meets step D s as := by
  induction as generalizing s with
  | nil => exact Iff.rfl
  | cons a as ih =>
    apply and_congr (hCD s a hs)
    exact forall_congr' fun t => forall_congr' fun ht => ih (hstep s a t ht hs)

/-- Evaluate a condition along a concrete run. -/
def check (step : σ → α → Option σ) (b : σ → α → Bool) : σ → List α → Bool
  | _, [] => true
  | s, a::as => b s a && (step s a).all fun t => check step b t as

theorem meets_of_check {step : σ → α → Option σ} {C : σ → α → Prop} (b : σ → α → Bool)
    (hb : ∀ s a, b s a = true → C s a) {s : σ} {as : List α} (h : check step b s as = true) :
    Meets step C s as := by
  induction as generalizing s with
  | nil => trivial
  | cons a as ih =>
    simp only [check, Bool.and_eq_true, Option.all_eq_true] at h
    exact ⟨hb s a h.1,fun t ht => ih (h.2 t ht)⟩

/-- An invariant that needs the condition at each step holds after every run meeting it. -/
theorem run_invariant_of_meets {step : σ → α → Option σ} {C : σ → α → Prop} {I : σ → Prop}
    (hstep : ∀ s a t, step s a = some t → C s a → I s → I t) {s u : σ} {as : List α}
    (hC : Meets step C s as) (h : run step s as = some u) (hs : I s) : I u := by
  induction as generalizing s with
  | nil => cases h; exact hs
  | cons a as ih =>
    obtain ⟨t,ht,hu⟩ := run_cons_eq_some.mp h
    exact ih (hC.2 t ht) hu (hstep s a t ht hC.1 hs)

/-- A condition that follows from another one and from an invariant that this one keeps. -/
theorem meets_of_meets {step : σ → α → Option σ} {C D : σ → α → Prop} {I : σ → Prop}
    (hstep : ∀ s a t, step s a = some t → C s a → I s → I t) (hD : ∀ s a, C s a → I s → D s a)
    {s : σ} {as : List α} (hC : Meets step C s as) (hs : I s) : Meets step D s as := by
  induction as generalizing s with
  | nil => trivial
  | cons a as ih => exact ⟨hD s a hC.1 hs,fun t ht => ih (hC.2 t ht) (hstep s a t ht hC.1 hs)⟩

theorem not_meets_cons {step : σ → α → Option σ} {C : σ → α → Prop} {s t : σ} {a : α} {as : List α}
    (h : step s a = some t) (ht : ¬ Meets step C t as) : ¬ Meets step C s (a::as) :=
  fun hm => ht (hm.2 t h)

theorem meets_of_append {step : σ → α → Option σ} {C : σ → α → Prop} {s t : σ} {as bs : List α}
    (h : run step s as = some t) (hC : Meets step C s (as ++ bs)) : Meets step C t bs := by
  induction as generalizing s with
  | nil => cases h; exact hC
  | cons a as ih =>
    obtain ⟨u,hu,ht⟩ := run_cons_eq_some.mp h
    exact ih ht (hC.2 u hu)

/-- `P` holds in every state that the run passes through, both ends included. -/
def Always (step : σ → α → Option σ) (P : σ → Prop) : σ → List α → Prop
  | s, [] => P s
  | s, a::as => P s ∧ ∀ t, step s a = some t → Always step P t as

theorem always_of_invariant {step : σ → α → Option σ} {P I : σ → Prop}
    (hstep : ∀ s a t, step s a = some t → I s → I t) (hP : ∀ s, I s → P s) {s : σ} (hs : I s)
    (as : List α) : Always step P s as := by
  induction as generalizing s with
  | nil => exact hP s hs
  | cons a as ih => exact ⟨hP s hs,fun t ht => ih (hstep s a t ht hs)⟩

/-- When a step keeps `P` exactly under `C`, a run stays in `P` exactly when it meets `C`; an
invariant `I` of all runs may help. -/
theorem always_iff_meets {step : σ → α → Option σ} {C : σ → α → Prop} {P I : σ → Prop}
    (hinv : ∀ s a t, step s a = some t → I s → I t)
    (hstep : ∀ s a t, step s a = some t → I s → P s → (P t ↔ C s a)) {s u : σ} {as : List α}
    (h : run step s as = some u) (hI : I s) (hs : P s) : Always step P s as ↔ Meets step C s as := by
  induction as generalizing s with
  | nil => exact ⟨fun _ => trivial,fun _ => hs⟩
  | cons a as ih =>
    obtain ⟨t,ht,hu⟩ := run_cons_eq_some.mp h
    have head : ∀ {Q : σ → Prop}, (∀ v, step s a = some v → Q v) ↔ Q t := by
      intro Q
      constructor
      · intro hq; exact hq t ht
      · intro hq v hv; cases ht.symm.trans hv; exact hq
    simp only [Always, Meets, head]
    constructor
    · rintro ⟨-,htail⟩
      have hPt : P t := by cases as <;> [exact htail; exact htail.1]
      exact ⟨(hstep s a t ht hI hs).mp hPt,(ih hu (hinv s a t ht hI) hPt).mp htail⟩
    · rintro ⟨hc,htail⟩
      exact ⟨hs,(ih hu (hinv s a t ht hI) ((hstep s a t ht hI hs).mpr hc)).mpr htail⟩

/-- When a step ends in `P` exactly if it started there and met `C`, the last state tells whether the
run met `C` throughout; an invariant `I` of all runs may help. -/
theorem last_iff_meets {step : σ → α → Option σ} {C : σ → α → Prop} {P I : σ → Prop}
    (hinv : ∀ s a t, step s a = some t → I s → I t)
    (hstep : ∀ s a t, step s a = some t → I s → (P t ↔ P s ∧ C s a)) {s u : σ} {as : List α}
    (h : run step s as = some u) (hI : I s) : P u ↔ P s ∧ Meets step C s as := by
  induction as generalizing s with
  | nil => cases h; exact ⟨fun hP => ⟨hP,trivial⟩,And.left⟩
  | cons a as ih =>
    obtain ⟨t,ht,hu⟩ := run_cons_eq_some.mp h
    rw [ih hu (hinv s a t ht hI),hstep s a t ht hI,and_assoc]
    refine and_congr_right fun _ => and_congr_right fun _ => ⟨fun hm v hv => ?_,fun hm => hm t ht⟩
    cases ht.symm.trans hv
    exact hm

/-- The actions of a run that belong to the component `i`. -/
def restrict {ι : Type*} [DecidableEq ι] (step : σ → α → Option σ) (own : σ → α → ι) (i : ι) : σ → List α → List α
  | _, [] => []
  | s, a::as =>
    let rest := (step s a).elim [] fun t => restrict step own i t as
    if own s a = i then a::rest else rest

/-- A component that the actions of the others leave alone runs as if it were alone. -/
theorem run_restrict {ι τ : Type*} [DecidableEq ι] {step : σ → α → Option σ} {step' : τ → α → Option τ}
    {own : σ → α → ι} {i : ι} {R : σ → τ → Prop}
    (howns : ∀ s t a s', own s a = i → R s t → step s a = some s' → ∃ t', step' t a = some t' ∧ R s' t')
    (hother : ∀ s t a s', own s a ≠ i → R s t → step s a = some s' → R s' t)
    {s s' : σ} {t : τ} {as : List α} (h : run step s as = some s') (hR : R s t) :
    ∃ t', run step' t (restrict step own i s as) = some t' ∧ R s' t' := by
  induction as generalizing s t with
  | nil => cases h; exact ⟨t,rfl,hR⟩
  | cons a as ih =>
    obtain ⟨m,hm,hrest⟩ := run_cons_eq_some.mp h
    simp only [restrict, hm, Option.elim_some]
    split_ifs with ha
    · obtain ⟨u,hu,hRu⟩ := howns s t a m ha hR hm
      obtain ⟨v,hv,hRv⟩ := ih hrest hRu
      exact ⟨v,run_cons_eq_some.mpr ⟨u,hu,hv⟩,hRv⟩
    · exact ih hrest (hother s t a m ha hR hm)

end ExampleKernel.Foundation
