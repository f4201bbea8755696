import ExampleKernel.Foundation.Transition

/-! The potential method. A step pays its cost out of the potential and of what its action brings in;
along a run the costs are then at most what was there at first and what came in. -/
namespace ExampleKernel.Foundation
variable {σ α ι : Type*}

/-- What a run costs, against the credit of its actions. -/
theorem run_pays {step : σ → α → Option σ} {C : σ → α → Prop} {I : σ → Prop} {Φ : σ → ℕ} {cost credit : α → ℕ}
    (hinv : ∀ s a t, step s a = some t → C s a → I s → I t)
    (hpay : ∀ s a t, step s a = some t → C s a → I s → cost a+Φ t ≤ Φ s+credit a) {s u : σ} {as : List α}
    (hC : Meets step C s as) (h : run step s as = some u) (hs : I s) :
    (as.map cost).sum+Φ u ≤ Φ s+(as.map credit).sum := by
  induction as generalizing s with
  | nil => cases h; simp
  | cons a as ih =>
    obtain ⟨t,ht,hu⟩ := run_cons_eq_some.mp h
    have hhead := hpay s a t ht hC.1 hs
    have htail := ih (hC.2 t ht) hu (hinv s a t ht hC.1 hs)
    simp only [List.map_cons, List.sum_cons]
    omega

/-- A run whose steps all use up some potential is no longer than the potential. -/
theorem length_le_of_falls {step : σ → α → Option σ} {C : σ → α → Prop} {I : σ → Prop} {Φ : σ → ℕ}
    (hinv : ∀ s a t, step s a = some t → C s a → I s → I t)
    (hfall : ∀ s a t, step s a = some t → C s a → I s → Φ t < Φ s) {s u : σ} {as : List α}
    (hC : Meets step C s as) (h : run step s as = some u) (hs : I s) : as.length+Φ u ≤ Φ s := by
  induction as generalizing s with
  | nil => cases h; simp
  | cons a as ih =>
    obtain ⟨t,ht,hu⟩ := run_cons_eq_some.mp h
    have hhead := hfall s a t ht hC.1 hs
    have htail := ih (hC.2 t ht) hu (hinv s a t ht hC.1 hs)
    simp only [List.length_cons]
    omega

/-- Actions that use up the potential come to an end. -/
theorem exists_rest {step : σ → α → Option σ} {A : σ → α → Prop} {I : σ → Prop} {Φ : σ → ℕ}
    (hinv : ∀ s a t, step s a = some t → A s a → I s → I t)
    (hfall : ∀ s a t, step s a = some t → A s a → I s → Φ t < Φ s) {s : σ} (hs : I s) :
    ∃ as u, Meets step A s as ∧ run step s as = some u ∧ ∀ a, A u a → step u a = none := by
  induction hk : Φ s using Nat.strong_induction_on generalizing s with
  | _ k ih =>
    by_cases hrest : ∀ a, A s a → step s a = none
    · exact ⟨[],s,trivial,rfl,hrest⟩
    · push Not at hrest
      obtain ⟨a,ha,hne⟩ := hrest
      obtain ⟨t,ht⟩ := Option.ne_none_iff_exists'.mp hne
      obtain ⟨as,u,hA,hu,hend⟩ := ih _ (hk ▸ hfall s a t ht ha hs) (hinv s a t ht ha hs) rfl
      refine ⟨a::as,u,⟨ha,fun v hv => ?_⟩,run_cons_eq_some.mpr ⟨t,ht,hu⟩,hend⟩
      cases ht.symm.trans hv
      exact hA

/-- A sum in which one term grows. -/
theorem sum_grows [DecidableEq ι] {P : Finset ι} {f g : ι → ℕ} {p : ι} {k : ℕ} (hp : g p ≤ f p+k)
    (h : ∀ r, r ≠ p → g r = f r) : ∑ r ∈ P, g r ≤ (∑ r ∈ P, f r)+k := by
  calc ∑ r ∈ P, g r ≤ ∑ r ∈ P, (f r+if r = p then k else 0) := by
        refine Finset.sum_le_sum fun r _ => ?_
        split_ifs with hr
        · exact hr ▸ hp
        · exact (h r hr).le
    _ = (∑ r ∈ P, f r)+∑ r ∈ P, if r = p then k else 0 := Finset.sum_add_distrib
    _ ≤ (∑ r ∈ P, f r)+k := by
        rw [Finset.sum_ite_eq' P p]
        split_ifs <;> omega

/-- A sum in which one term falls. -/
theorem sum_falls {P : Finset ι} {f g : ι → ℕ} {p : ι} (hmem : p ∈ P) (hp : g p < f p)
    (h : ∀ r, r ≠ p → g r = f r) : ∑ r ∈ P, g r < ∑ r ∈ P, f r := by
  refine Finset.sum_lt_sum (fun r _ => ?_) ⟨p,hmem,hp⟩
  by_cases hr : r = p
  · exact hr ▸ hp.le
  · exact (h r hr).le

end ExampleKernel.Foundation
