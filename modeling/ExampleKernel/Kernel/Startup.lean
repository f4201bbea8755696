import ExampleKernel.Foundation.Transition

/-! Init functions that run side by side with the entry points they have published: what is used must
have been initialised, and what is in use must not be initialised again. -/
namespace ExampleKernel.Kernel
open ExampleKernel.Foundation

/-- A step of an init function, which is also a point that it has reached once the step is done. -/
inductive InitStep (ω ε : Type)
  | call
  | init (o : ω)
  | publish (e : ε)
  deriving DecidableEq

def InitStep.object? {ω ε : Type} : InitStep ω ε → Option ω
  | .init o => some o
  | _ => none

/-- The steps of an init function, the objects that are initialised statically, and the system around
it: what an action does, the entry point it comes through, the objects it uses, what the
initialisation of an object does, and whether an object is held or queued. -/
structure Startup (σ α ω ε : Type) where
  steps : List (InitStep ω ε)
  static : ω → Bool
  act : σ → α → Option σ
  entry : α → Option ε
  uses : σ → α → List ω
  reset : ω → σ → σ
  busy : σ → ω → Prop

/-- `done` counts the steps that init has made. -/
structure Starting (σ : Type) where
  sys : σ
  done : ℕ

inductive StartupAct (α : Type)
  | init
  | other (a : α)

namespace Startup
variable {σ α ω ε : Type} (P : Startup σ α ω ε)

/-- Init has made this step. -/
def Reached (n : ℕ) (x : InitStep ω ε) : Prop := x ∈ P.steps.take n

instance [DecidableEq ω] [DecidableEq ε] (n : ℕ) (x : InitStep ω ε) : Decidable (P.Reached n x) :=
  inferInstanceAs (Decidable (_ ∈ _))

def Ready (n : ℕ) (o : ω) : Prop := P.static o = true ∨ P.Reached n (.init o)

instance [DecidableEq ω] [DecidableEq ε] (n : ℕ) (o : ω) : Decidable (P.Ready n o) :=
  inferInstanceAs (Decidable (_ ∨ _))

/-- Init makes the step `x` whenever it makes the step `y`, and not later. -/
def Precedes (x y : InitStep ω ε) : Prop :=
  x = y ∨ ∀ k < P.steps.length, P.steps[k]? = some y → P.Reached k x

instance [DecidableEq ω] [DecidableEq ε] (x y : InitStep ω ε) : Decidable (P.Precedes x y) :=
  inferInstanceAs (Decidable (_ ∨ _))

/-- No object is initialised twice. -/
def Once : Prop := ∀ k < P.steps.length, ∀ o ∈ P.steps[k]?.bind InitStep.object?, ¬ P.Reached k (.init o)

instance [DecidableEq ω] [DecidableEq ε] : Decidable P.Once := by
  unfold Once
  infer_instance

def applyInit (s : σ) : InitStep ω ε → σ
  | .init o => P.reset o s
  | _ => s

/-- The entry point of an action, if it has one, is published. -/
def Live (n : ℕ) (a : α) : Prop := ∀ e ∈ P.entry a, P.Reached n (.publish e)

instance [DecidableEq ω] [DecidableEq ε] (n : ℕ) (a : α) : Decidable (P.Live n a) := by
  unfold Live
  infer_instance

/-- One step of init, or of anything that has been published. -/
def step [DecidableEq ω] [DecidableEq ε] (s : Starting σ) : StartupAct α → Option (Starting σ)
  | .init => P.steps[s.done]?.map fun x => ⟨P.applyInit s.sys x,s.done+1⟩
  | .other a => if P.Live s.done a then (P.act s.sys a).map fun t => ⟨t,s.done⟩ else none

/-- What runs uses only what is initialised, and init leaves alone what is held or queued. -/
def Sound (s : Starting σ) : StartupAct α → Prop
  | .init => ∀ o, P.steps[s.done]? = some (.init o) → ¬ P.busy s.sys o
  | .other a => P.Live s.done a → ∀ o ∈ P.uses s.sys a, P.Ready s.done o

/-- The action is taken only after the steps that `needs` names. -/
def Guarded (needs : σ → α → List (InitStep ω ε)) (s : Starting σ) : StartupAct α → Prop
  | .init => True
  | .other a => ∀ x ∈ needs s.sys a, P.Reached s.done x

instance [DecidableEq ω] [DecidableEq ε] (needs : σ → α → List (InitStep ω ε)) (s : Starting σ) :
    DecidablePred (P.Guarded needs s)
  | .init => inferInstanceAs (Decidable True)
  | .other a => inferInstanceAs (Decidable (∀ x ∈ needs s.sys a, P.Reached s.done x))

variable {P}

@[simp] theorem precedes_refl (x : InitStep ω ε) : P.Precedes x x := .inl rfl

theorem reached_mono {n m : ℕ} {x : InitStep ω ε} (hnm : n ≤ m) (h : P.Reached n x) : P.Reached m x := by
  rw [Reached,← Nat.min_eq_left hnm,← List.take_take] at h
  exact List.mem_of_mem_take h

theorem reached_of_precedes {n : ℕ} {x y : InitStep ω ε} (hxy : P.Precedes x y) (hy : P.Reached n y) :
    P.Reached n x := by
  obtain rfl | hbefore := hxy
  · exact hy
  · obtain ⟨k,hk⟩ := List.mem_iff_getElem?.mp hy
    rw [List.getElem?_take] at hk
    split_ifs at hk with hkn
    have hlen : k < P.steps.length := (List.getElem?_eq_some_iff.mp hk).1
    exact reached_mono (Nat.le_of_lt hkn) (hbefore k hlen hk)

theorem precedes_trans {x y z : InitStep ω ε} (hxy : P.Precedes x y) (hyz : P.Precedes y z) : P.Precedes x z := by
  obtain rfl | hbefore := hyz
  · exact hxy
  · exact .inr fun k hk hz => reached_of_precedes hxy (hbefore k hk hz)

section Guarded
variable {needs : σ → α → List (InitStep ω ε)}
  {Pending : σ → InitStep ω ε → Prop}

/-- What is under way, held or queued relies on steps of init. -/
def Relies (P : Startup σ α ω ε) (Pending : σ → InitStep ω ε → Prop) (s : σ) (x : InitStep ω ε) : Prop :=
  Pending s x ∨ ∃ o, x = .init o ∧ P.busy s o

/-- What an action relies on, besides: its guard, and the entry point that it comes through. -/
def Brings (P : Startup σ α ω ε) (needs : σ → α → List (InitStep ω ε)) (s : σ) (a : α) (x : InitStep ω ε) : Prop :=
  x ∈ needs s a ∨ ∃ e ∈ P.entry a, x = .publish e

/-- The step `x` precedes one that is relied on, or that the action brings with it. -/
def Covers (P : Startup σ α ω ε) (needs : σ → α → List (InitStep ω ε)) (Pending : σ → InitStep ω ε → Prop)
    (s : σ) (a : α) (x : InitStep ω ε) : Prop :=
  ∃ y, (P.Relies Pending s y ∨ P.Brings needs s a y) ∧ P.Precedes x y

section Covers
variable {s : σ} {a : α} {x y : InitStep ω ε}

theorem covers_of_relies (h : P.Relies Pending s x) : P.Covers needs Pending s a x := ⟨x,.inl h,.inl rfl⟩

theorem covers_of_pending (h : Pending s x) : P.Covers needs Pending s a x := covers_of_relies (.inl h)

theorem covers_of_needs (h : x ∈ needs s a) : P.Covers needs Pending s a x := ⟨x,.inr (.inl h),.inl rfl⟩

theorem covers_of_entry {e : ε} (h : e ∈ P.entry a) : P.Covers needs Pending s a (.publish e) :=
  ⟨_,.inr (.inr ⟨e,h,rfl⟩),.inl rfl⟩

theorem Covers.of_precedes (h : P.Covers needs Pending s a y) (hxy : P.Precedes x y) :
    P.Covers needs Pending s a x := by
  obtain ⟨z,hz,hyz⟩ := h
  exact ⟨z,hz,precedes_trans hxy hyz⟩

end Covers

/-- Whatever comes to be relied on, and whatever an action uses, was covered before the action. -/
structure Guarding (P : Startup σ α ω ε) (needs : σ → α → List (InitStep ω ε))
    (Pending : σ → InitStep ω ε → Prop) (start : σ) : Prop where
  once : P.Once
  act : ∀ s a t, P.act s a = some t → ∀ x, P.Relies Pending t x → P.Covers needs Pending s a x
  reset : ∀ s o x, P.Relies Pending (P.reset o s) x → P.Relies Pending s x
  uses : ∀ s a o, o ∈ P.uses s a → P.static o = true ∨ P.Covers needs Pending s a (.init o)
  start : ∀ x, ¬ P.Relies Pending start x

/-- Init has made every step that is relied on. -/
def Behind (P : Startup σ α ω ε) (Pending : σ → InitStep ω ε → Prop) (s : Starting σ) : Prop :=
  ∀ x, P.Relies Pending s.sys x → P.Reached s.done x

variable {start : σ}

theorem reached_of_covers {s : Starting σ} {a : α} {x : InitStep ω ε} (hlive : P.Live s.done a)
    (hguard : P.Guarded needs s (.other a)) (hs : P.Behind Pending s)
    (h : P.Covers needs Pending s.sys a x) : P.Reached s.done x := by
  obtain ⟨y,hy | hy | ⟨e,he,rfl⟩,hxy⟩ := h
  · exact reached_of_precedes hxy (hs y hy)
  · exact reached_of_precedes hxy (hguard y hy)
  · exact reached_of_precedes hxy (hlive e he)

theorem behind_start (hG : P.Guarding needs Pending start) : P.Behind Pending ⟨start,0⟩ :=
  fun x hx => absurd hx (hG.start x)

variable [DecidableEq ω] [DecidableEq ε]

theorem behind_step (hG : P.Guarding needs Pending start) {s t : Starting σ} {a : StartupAct α}
    (h : P.step s a = some t) (hguard : P.Guarded needs s a) (hs : P.Behind Pending s) : P.Behind Pending t := by
  intro x hx
  cases a with
  | init =>
    simp only [step, Option.map_eq_some_iff] at h
    obtain ⟨y,hy,rfl⟩ := h
    apply reached_mono (Nat.le_succ s.done)
    apply hs x
    cases y with
    | init o => exact hG.reset s.sys o x hx
    | call => exact hx
    | publish e => exact hx
  | other a =>
    simp only [step, Option.ite_none_right_eq_some, Option.map_eq_some_iff] at h
    obtain ⟨hlive,u,hu,rfl⟩ := h
    exact reached_of_covers (s := s) hlive hguard hs (hG.act s.sys a u hu x hx)

theorem behind_of_guarded (hG : P.Guarding needs Pending start) {acts : List (StartupAct α)} {s : Starting σ}
    (hC : Meets P.step (P.Guarded needs) ⟨start,0⟩ acts) (h : run P.step ⟨start,0⟩ acts = some s) :
    P.Behind Pending s :=
  run_invariant_of_meets (fun _ _ _ => behind_step hG) hC h (behind_start hG)

/-- Guarded runs are sound. -/
theorem sound_of_guarded (hG : P.Guarding needs Pending start) {acts : List (StartupAct α)}
    (hC : Meets P.step (P.Guarded needs) ⟨start,0⟩ acts) : Meets P.step P.Sound ⟨start,0⟩ acts := by
  refine meets_of_meets (fun _ _ _ => behind_step hG) (fun s a hguard hs => ?_) hC (behind_start hG)
  cases a with
  | init =>
    intro o ho hbusy
    exact hG.once s.done (List.getElem?_eq_some_iff.mp ho).1 o (by rw [ho]; rfl) (hs _ (.inr ⟨o,rfl,hbusy⟩))
  | other a =>
    intro hlive o ho
    exact (hG.uses s.sys a o ho).imp_right (reached_of_covers (s := s) hlive hguard hs)

end Guarded

end Startup

end ExampleKernel.Kernel
