import Mathlib.Tactic

/-! Events that must keep a distance in time: the greedy rule over an unbounded clock, and what the
samples of a clock that wraps still tell. -/
namespace ExampleKernel.Foundation

/-- The elapsed time is the wrapped difference of the samples, while it is less than a period. -/
theorem wrapped_sub {m now past : ℕ} (h : past ≤ now) (hlt : now-past < m) :
    (now%m+m-past%m)%m = now-past := by
  have hpast := Nat.mod_lt past (Nat.zero_lt_of_lt hlt)
  have hsum : now%m+m-past%m+past ≡ now-past+past [MOD m] := by
    calc now%m+m-past%m+past ≡ now%m+m-past%m+past%m [MOD m] := (Nat.mod_modEq past m).symm.add_left _
      _ = now%m+m := Nat.sub_add_cancel (by omega)
      _ ≡ now%m [MOD m] := Nat.add_modEq_right
      _ ≡ now [MOD m] := Nat.mod_modEq now m
      _ = now-past+past := (Nat.sub_add_cancel h).symm
  have hmod := Nat.ModEq.add_right_cancel' past hsum
  rwa [Nat.ModEq,Nat.mod_eq_of_lt hlt] at hmod

/-- An event whose clock is read when it begins and, if it counts, once more when it is recorded. -/
structure Event where
  first : ℕ
  second : ℕ
  deriving DecidableEq

/-- The clock never goes back. -/
def Chronological : ℕ → List Event → Prop
  | _, [] => True
  | now, e::es => now ≤ e.first ∧ e.first ≤ e.second ∧ Chronological e.second es

theorem Chronological.mono {now now' : ℕ} {es : List Event} (h : Chronological now es) (hle : now' ≤ now) :
    Chronological now' es := by
  cases es with
  | nil => trivial
  | cons e es => exact ⟨hle.trans h.1,h.2⟩

/-- Accept an event that begins at least `gap` after the last accepted one was recorded. -/
def greedy (gap : ℕ) : ℕ → List Event → List (Event × Bool)
  | _, [] => []
  | last, e::es =>
    if last+gap ≤ e.first then (e,true) :: greedy gap e.second es else (e,false) :: greedy gap last es

/-- No event begins a period or more after the last accepted one was recorded. -/
def Recent (period gap : ℕ) : ℕ → List Event → Prop
  | _, [] => True
  | last, e::es => e.first < last+period ∧ Recent period gap (if last+gap ≤ e.first then e.second else last) es

def accepted (verdicts : List (Event × Bool)) : List Event := (verdicts.filter Prod.snd).map Prod.fst

@[simp] theorem accepted_nil : accepted [] = [] := rfl

@[simp] theorem accepted_true (e : Event) (vs : List (Event × Bool)) :
    accepted ((e,true)::vs) = e :: accepted vs := rfl

@[simp] theorem accepted_false (e : Event) (vs : List (Event × Bool)) :
    accepted ((e,false)::vs) = accepted vs := rfl

/-- Whatever the rule accepts keeps the distance from what was accepted before. -/
theorem greedy_after {gap now last : ℕ} {es : List Event} (hchron : Chronological now es) (hlast : last ≤ now) :
    ∀ e ∈ accepted (greedy gap last es), last+gap ≤ e.first := by
  induction es generalizing now last with
  | nil => simp [greedy]
  | cons e es ih =>
    obtain ⟨hnow,hle,hrest⟩ := hchron
    rw [greedy]
    split_ifs with hgap
    · rw [accepted_true,List.forall_mem_cons]
      refine ⟨hgap,fun d hd => ?_⟩
      have hd' := ih hrest le_rfl d hd
      omega
    · rw [accepted_false]
      exact ih hrest (by omega)

theorem greedy_spaced {gap now last : ℕ} {es : List Event} (hchron : Chronological now es) (hlast : last ≤ now) :
    (accepted (greedy gap last es)).Pairwise fun d e => d.second+gap ≤ e.first := by
  induction es generalizing now last with
  | nil => exact List.Pairwise.nil
  | cons e es ih =>
    obtain ⟨hnow,hle,hrest⟩ := hchron
    rw [greedy]
    split_ifs with hgap
    · rw [accepted_true,List.pairwise_cons]
      exact ⟨greedy_after hrest le_rfl,ih hrest le_rfl⟩
    · rw [accepted_false]
      exact ih hrest (by omega)

end ExampleKernel.Foundation
