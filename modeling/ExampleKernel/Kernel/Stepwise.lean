import ExampleKernel.Kernel.Ladder

/-! The loads and unloads of a module call by call, so that other things can happen in between. Each
course of calls is one that the attempt as a whole goes through. -/
namespace ExampleKernel.Kernel
open ExampleKernel.Foundation

/-- Where a module is: in its init function with calls still to make, behind the jump to a label or in
its exit function with resources still to release, or none of these. -/
inductive Stage (κ ρ : Type)
  | out
  | init (rest : List (Rung κ ρ))
  | undo (rest : List ρ)
  | loaded
  | exit (rest : List ρ)
  | oops

/-- `choice` and `ok` are what the kernel answers in the latest load. -/
structure Course (ν κ ρ : Type) where
  stage : Stage κ ρ
  held : List ρ
  choice : ν
  ok : κ → Bool

/-- `ret` is the return of init or exit. -/
inductive Move (ν κ : Type)
  | load (v : ν) (ok : κ → Bool)
  | call
  | unload
  | release
  | ret

section Stages
variable {κ ρ : Type}

def Stage.isOut : Stage κ ρ → Bool
  | .out => true
  | _ => false

def Stage.isLoaded : Stage κ ρ → Bool
  | .loaded => true
  | _ => false

def Stage.isExit : Stage κ ρ → Bool
  | .exit _ => true
  | _ => false

theorem Stage.isOut_iff {s : Stage κ ρ} : s.isOut = true ↔ s = .out := by cases s <;> simp [Stage.isOut]

theorem Stage.isLoaded_iff {s : Stage κ ρ} : s.isLoaded = true ↔ s = .loaded := by
  cases s <;> simp [Stage.isLoaded]

end Stages

section Acquired
variable {κ ρ : Type}

theorem mem_acquired {ok : κ → Bool} {rs : List (Rung κ ρ)} {held : List ρ} {x : ρ}
    (h : x ∈ (attempt ok rs held).acquired) : x ∈ held ∨ ∃ r ∈ rs, x ∈ r.acquires := by
  induction rs generalizing held with
  | nil => exact .inl h
  | cons r rs ih =>
    have hnext : ∀ more, x ∈ (attempt ok rs (held ++ more)).acquired → (x ∈ more → x ∈ r.acquires) →
        x ∈ held ∨ ∃ r' ∈ r::rs, x ∈ r'.acquires := by
      intro more hx hmore
      obtain hx | hx := ih hx
      · exact (List.mem_append.mp hx).imp id fun hx => ⟨r,List.mem_cons_self,hmore hx⟩
      · obtain ⟨r',hr,hx⟩ := hx
        exact .inr ⟨r',List.mem_cons_of_mem _ hr,hx⟩
    rw [attempt] at h
    split_ifs at h
    · exact hnext r.acquires h id
    · cases hf : r.failure <;> rw [hf] at h
      case never | ignored => exact hnext [] (by rwa [List.append_nil]) fun hx => by cases hx
      all_goals exact .inl h

/-- What is held stays acquired. -/
theorem acquired_of_held {ok : κ → Bool} {rs : List (Rung κ ρ)} {held : List ρ} {x : ρ} (h : x ∈ held) :
    x ∈ (attempt ok rs held).acquired := by
  induction rs generalizing held with
  | nil => exact h
  | cons r rs ih =>
    rw [attempt]
    split_ifs
    · exact ih (List.mem_append_left _ h)
    · cases r.failure with
      | never | ignored => exact ih h
      | undo | oops => exact h

/-- In an init function that returns 0, no call has failed whose failure ends it. -/
theorem acquired_of_ok {ok : κ → Bool} {rs : List (Rung κ ρ)} {held : List ρ} {r : Rung κ ρ}
    {release : List ρ → List ρ} {x : ρ} (hok : (attempt ok rs held).result = .ok) (hr : r ∈ rs)
    (hf : r.failure = .undo release) (hx : x ∈ r.acquires) : x ∈ (attempt ok rs held).acquired := by
  induction rs generalizing held with
  | nil => cases hr
  | cons r' rs ih =>
    rw [attempt] at hok ⊢
    obtain rfl | hr := List.mem_cons.mp hr
    · rw [hf] at hok ⊢
      split_ifs at hok ⊢
      exact acquired_of_held (List.mem_append_right _ hx)
    · split_ifs at hok ⊢
      · exact ih hok hr
      · cases hf' : r'.failure <;> rw [hf'] at hok
        case never | ignored => exact ih hok hr
        all_goals cases hok

end Acquired

section Moves
variable {ν κ ρ : Type} [DecidableEq ρ]

/-- One call of an init function. -/
def Course.make (c : Course ν κ ρ) (r : Rung κ ρ) (rest : List (Rung κ ρ)) : Course ν κ ρ :=
  if r.succeeds c.ok then {c with stage := .init rest, held := c.held ++ r.acquires}
  else match r.failure with
    | .never | .ignored => {c with stage := .init rest}
    | .undo release => {c with stage := .undo (release c.held)}
    | .oops => {c with stage := .oops}

omit [DecidableEq ρ] in
theorem held_subset_make (c : Course ν κ ρ) (r : Rung κ ρ) (rest : List (Rung κ ρ)) :
    c.held ⊆ (c.make r rest).held := by
  unfold Course.make
  split_ifs
  · exact List.subset_append_left _ _
  · cases r.failure <;> exact List.Subset.refl _

omit [DecidableEq ρ] in
theorem make_ok (c : Course ν κ ρ) (r : Rung κ ρ) (rest : List (Rung κ ρ)) : (c.make r rest).ok = c.ok := by
  unfold Course.make
  split_ifs
  · rfl
  · cases r.failure <;> rfl

omit [DecidableEq ρ] in
/-- An init function goes on, or jumps to a label, or uses an invalid result. -/
theorem make_stage (c : Course ν κ ρ) (r : Rung κ ρ) (rest : List (Rung κ ρ)) :
    (c.make r rest).stage = .init rest ∨ (∃ l, (c.make r rest).stage = .undo l) ∨ (c.make r rest).stage = .oops := by
  unfold Course.make
  split_ifs
  · exact .inl rfl
  · cases r.failure with
    | never | ignored => exact .inl rfl
    | undo release => exact .inr (.inl ⟨_,rfl⟩)
    | oops => exact .inr (.inr rfl)

def Driver.advance (D : Driver ν κ ρ) (c : Course ν κ ρ) : Move ν κ → Option (Course ν κ ρ)
  | .load v ok => match c.stage with
    | .out => some {c with stage := .init (D.init v), choice := v, ok := ok}
    | _ => none
  | .call => match c.stage with
    | .init (r::rest) => some (c.make r rest)
    | _ => none
  | .unload => match c.stage with
    | .loaded => some {c with stage := if (D.exit c.held).1 = .oops then .oops else .exit (D.exit c.held).2}
    | _ => none
  | .release => match c.stage with
    | .undo (x::rest) => some {c with stage := .undo rest, held := c.held.erase x}
    | .exit (x::rest) => some {c with stage := .exit rest, held := c.held.erase x}
    | _ => none
  | .ret => match c.stage with
    | .init [] => some {c with stage := .loaded}
    | .undo [] | .exit [] => some {c with stage := .out}
    | _ => none

variable {D : Driver ν κ ρ}

/-- What each move can do. -/
theorem advance_cases {c c' : Course ν κ ρ} {m : Move ν κ} (h : D.advance c m = some c') :
    (∃ v ok, m = .load v ok ∧ c.stage = .out ∧ c' = ⟨.init (D.init v),c.held,v,ok⟩) ∨
    (∃ r rest, m = .call ∧ c.stage = .init (r::rest) ∧ c' = c.make r rest) ∨
    (m = .unload ∧ c.stage = .loaded ∧
      c' = {c with stage := if (D.exit c.held).1 = .oops then .oops else .exit (D.exit c.held).2}) ∨
    (∃ x rest, m = .release ∧ c.stage = .undo (x::rest) ∧
      c' = {c with stage := .undo rest, held := c.held.erase x}) ∨
    (∃ x rest, m = .release ∧ c.stage = .exit (x::rest) ∧
      c' = {c with stage := .exit rest, held := c.held.erase x}) ∨
    (m = .ret ∧ c.stage = .init [] ∧ c' = {c with stage := .loaded}) ∨
    (m = .ret ∧ (c.stage = .undo [] ∨ c.stage = .exit []) ∧ c' = {c with stage := .out}) := by
  cases m <;> simp only [Driver.advance] at h <;> split at h <;> simp_all

/-- The attempt as a whole that the module is in, or was last in. -/
def Driver.whole (D : Driver ν κ ρ) (c : Course ν κ ρ) : Attempt ρ := attempt c.ok (D.init c.choice) []

/-- The course of calls agrees with the attempt as a whole: what is held is what the calls made so far
have acquired, or what is left after the releases made so far. -/
def Driver.Tracks (D : Driver ν κ ρ) (c : Course ν κ ρ) : Prop :=
  match c.stage with
  | .out => c.held = []
  | .init rest => ∃ made, D.init c.choice = made ++ rest ∧ attempt c.ok made [] = ⟨.ok,c.held,[]⟩
  | .undo rest => (D.whole c).result = .error ∧
      ∃ done, (D.whole c).released = done ++ rest ∧ c.held = (D.whole c).acquired.diff done
  | .loaded => (D.whole c).result = .ok ∧ (D.whole c).acquired = c.held
  | .exit rest => (D.whole c).result = .ok ∧
      ∃ done, (D.exit (D.whole c).acquired).2 = done ++ rest ∧ c.held = (D.whole c).acquired.diff done
  | .oops => False

theorem diff_concat (l done : List ρ) (x : ρ) : l.diff (done ++ [x]) = (l.diff done).erase x := by
  rw [List.diff_append,List.diff_cons,List.diff_nil]

/-- An init function goes on with the next call, or the attempt as a whole ends with it. -/
theorem tracks_make {c : Course ν κ ρ} {r : Rung κ ρ} {rest : List (Rung κ ρ)} (hstage : c.stage = .init (r::rest))
    (hc : D.Tracks c) (hsafe : (D.whole c).result ≠ .oops) : D.Tracks (c.make r rest) := by
  simp only [Driver.Tracks, hstage] at hc
  obtain ⟨made,hinit,hmade⟩ := hc
  have hnext : D.init c.choice = (made ++ [r]) ++ rest := by rw [hinit,List.append_assoc]; rfl
  have hgoes : ∀ rs, attempt c.ok (made ++ rs) [] = attempt c.ok rs c.held := fun rs => by
    rw [attempt_append,hmade,if_pos rfl]
  have hwhole : D.whole c = attempt c.ok (r::rest) c.held := by rw [Driver.whole,hinit,hgoes]
  have hone := hgoes [r]
  rw [attempt] at hone hwhole
  unfold Course.make
  by_cases hs : r.succeeds c.ok = true
  · rw [if_pos hs] at hone ⊢
    exact ⟨made ++ [r],hnext,hone⟩
  · rw [if_neg hs] at hone hwhole ⊢
    cases hf : r.failure with
    | never | ignored =>
      rw [hf] at hone
      exact ⟨made ++ [r],hnext,hone⟩
    | undo release =>
      rw [hf] at hwhole
      exact ⟨congrArg Attempt.result hwhole,[],congrArg Attempt.released hwhole,(congrArg Attempt.acquired hwhole).symm⟩
    | oops =>
      rw [hf] at hwhole
      exact absurd (congrArg Attempt.result hwhole) hsafe

/-- When loads clean up after themselves, and exit releases exactly what is held, what is held never
departs from the attempts as a whole, and nothing is held while the module is out. -/
theorem tracks_step (hload : ∀ v ok, (attempt ok (D.init v) []).Clean fun _ => True)
    (hexit : ∀ v ok, (attempt ok (D.init v) []).result = .ok →
      (Attempt.mk (D.exit (attempt ok (D.init v) []).acquired).1 (attempt ok (D.init v) []).acquired
        (D.exit (attempt ok (D.init v) []).acquired).2).Exact)
    {c c' : Course ν κ ρ} {m : Move ν κ} (h : D.advance c m = some c') (hc : D.Tracks c) : D.Tracks c' := by
  have hclean : (D.whole c).Clean fun _ => True := hload c.choice c.ok
  have hexact := hexit c.choice c.ok
  change (D.whole c).result = .ok → _ at hexact
  obtain ⟨v,ok,-,hstage,rfl⟩ | ⟨r,rest,-,hstage,rfl⟩ | ⟨-,hstage,rfl⟩ | ⟨x,rest,-,hstage,rfl⟩ |
    ⟨x,rest,-,hstage,rfl⟩ | ⟨-,hstage,rfl⟩ | ⟨-,hstage | hstage,rfl⟩ := advance_cases h
  · simp only [Driver.Tracks, hstage] at hc
    exact ⟨[],rfl,by rw [hc]; rfl⟩
  · refine tracks_make hstage hc fun hoops => ?_
    rw [Attempt.Clean,hoops] at hclean
    exact hclean
  · simp only [Driver.Tracks, hstage] at hc
    obtain ⟨hok,hheld⟩ := hc
    have hresult : (D.exit c.held).1 = .ok := by rw [← hheld]; exact (hexact hok).1
    rw [hresult,if_neg (by decide)]
    exact ⟨hok,[],by rw [← hheld]; rfl,hheld.symm⟩
  · simp only [Driver.Tracks, hstage] at hc
    obtain ⟨hfail,done,hreleased,hheld⟩ := hc
    refine ⟨hfail,done ++ [x],?_,?_⟩
    · rw [List.append_assoc]; exact hreleased
    · rw [diff_concat]; exact congrArg (·.erase x) hheld
  · simp only [Driver.Tracks, hstage] at hc
    obtain ⟨hok,done,hreleased,hheld⟩ := hc
    refine ⟨hok,done ++ [x],?_,?_⟩
    · rw [List.append_assoc]; exact hreleased
    · rw [diff_concat]; exact congrArg (·.erase x) hheld
  · simp only [Driver.Tracks, hstage, List.append_nil] at hc
    obtain ⟨made,rfl,hmade⟩ := hc
    exact ⟨congrArg Attempt.result hmade,congrArg Attempt.acquired hmade⟩
  · simp only [Driver.Tracks, hstage, List.append_nil] at hc
    obtain ⟨hfail,done,rfl,hheld⟩ := hc
    rw [Attempt.Clean,hfail] at hclean
    exact hheld.trans hclean
  · simp only [Driver.Tracks, hstage, List.append_nil] at hc
    obtain ⟨hok,done,rfl,hheld⟩ := hc
    exact hheld.trans (hexact hok).2.1

/-- A call whose failure ends the load is still to be made, or has acquired what it acquires. -/
theorem ahead_or_held {c : Course ν κ ρ} {rest : List (Rung κ ρ)} {r : Rung κ ρ} {release : List ρ → List ρ} {x : ρ}
    (hc : D.Tracks c) (hstage : c.stage = .init rest) (hr : r ∈ D.init c.choice) (hf : r.failure = .undo release)
    (hx : x ∈ r.acquires) : r ∈ rest ∨ x ∈ c.held := by
  simp only [Driver.Tracks, hstage] at hc
  obtain ⟨made,hsplit,hmade⟩ := hc
  rw [hsplit,List.mem_append] at hr
  obtain hr | hr := hr
  · have hacquired := acquired_of_ok (congrArg Attempt.result hmade) hr hf hx
    rw [hmade] at hacquired
    exact .inr hacquired
  · exact .inl hr

/-- What is acquired last is not held while a call is still to be made. -/
theorem not_held_of_ahead {c : Course ν κ ρ} {r : Rung κ ρ} {rest : List (Rung κ ρ)} {x : ρ}
    (hinit : ∀ r ∈ (D.init c.choice).dropLast, x ∉ r.acquires) (hc : D.Tracks c) (hstage : c.stage = .init (r::rest)) :
    x ∉ c.held := by
  simp only [Driver.Tracks, hstage] at hc
  obtain ⟨made,hsplit,hmade⟩ := hc
  intro hx
  have hacquired : x ∈ (attempt c.ok made []).acquired := by rw [hmade]; exact hx
  obtain hnone | ⟨r',hr,hxr⟩ := mem_acquired hacquired
  · cases hnone
  · refine hinit r' ?_ hxr
    rw [hsplit,List.dropLast_append_of_ne_nil (List.cons_ne_nil _ _)]
    exact List.mem_append_left _ hr

/-- What is acquired last and released first is held only together with all that a load acquires. -/
theorem held_of_last {c : Course ν κ ρ} {x : ρ} (hinit : ∀ r ∈ (D.init c.choice).dropLast, x ∉ r.acquires)
    (herror : (D.whole c).result = .error → x ∉ (D.whole c).acquired) (hnodup : (D.whole c).acquired.Nodup)
    (hexit : x ∈ (D.whole c).acquired → ∃ rest, (D.exit (D.whole c).acquired).2 = x::rest)
    (hc : D.Tracks c) (hx : x ∈ c.held) : (D.whole c).result = .ok ∧ (D.whole c).acquired = c.held := by
  cases hstage : c.stage with
  | out =>
    simp only [Driver.Tracks, hstage] at hc
    rw [hc] at hx
    cases hx
  | init rest =>
    cases rest with
    | nil =>
      simp only [Driver.Tracks, hstage, List.append_nil] at hc
      obtain ⟨made,rfl,hmade⟩ := hc
      rw [Driver.whole,hmade]
      exact ⟨rfl,rfl⟩
    | cons r rest => exact absurd hx (not_held_of_ahead hinit hc hstage)
  | undo rest =>
    simp only [Driver.Tracks, hstage] at hc
    obtain ⟨hfail,done,-,hheld⟩ := hc
    rw [hheld] at hx
    exact absurd (List.diff_subset _ _ hx) (herror hfail)
  | loaded =>
    simp only [Driver.Tracks, hstage] at hc
    exact hc
  | exit rest =>
    simp only [Driver.Tracks, hstage] at hc
    obtain ⟨hok,done,hreleased,hheld⟩ := hc
    rw [hheld] at hx ⊢
    obtain ⟨rest',hfirst⟩ := hexit (List.diff_subset _ _ hx)
    cases done with
    | nil => exact ⟨hok,rfl⟩
    | cons y done =>
      rw [hfirst,List.cons_append,List.cons.injEq] at hreleased
      rw [← hreleased.1,List.diff_cons] at hx
      exact absurd (List.diff_subset _ _ hx) hnodup.not_mem_erase
  | oops =>
    simp only [Driver.Tracks, hstage] at hc

end Moves

end ExampleKernel.Kernel
