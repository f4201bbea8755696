import ExampleKernel.Foundation.Transition

/-! A bounded first-in first-out queue over an arbitrary alphabet, described by the
transfers that were completed on it. A log that replays from the empty queue conserves
the data: everything accepted since the last clear was delivered or is still queued. -/
namespace ExampleKernel.Foundation.BoundedQueue

variable {α : Type*}

/-- A completed transfer: data accepted at the back, data delivered from the front, or a reset. -/
inductive Transfer (α : Type*)
  | put (xs : List α)
  | get (xs : List α)
  | clear

/-- The queue after a transfer, provided that the queue and its capacity admit the transfer. -/
def step [DecidableEq α] (capacity : ℕ) (q : List α) : Transfer α → Option (List α)
  | .put xs => if q.length+xs.length ≤ capacity then some (q ++ xs) else none
  | .get xs => if xs <+: q then some (q.drop xs.length) else none
  | .clear => some []

def accept (acc : List α) : Transfer α → List α
  | .put xs => acc ++ xs
  | .get _ => acc
  | .clear => []

def deliver (acc : List α) : Transfer α → List α
  | .put _ => acc
  | .get xs => acc ++ xs
  | .clear => []

/-- All data accepted since the last clear, in order. -/
def accepted (log : List (Transfer α)) : List α := log.foldl accept []

/-- All data delivered since the last clear, in order. -/
def delivered (log : List (Transfer α)) : List α := log.foldl deliver []

@[simp] theorem accepted_concat (log : List (Transfer α)) (t : Transfer α) :
    accepted (log ++ [t]) = accept (accepted log) t := by simp [accepted]

@[simp] theorem delivered_concat (log : List (Transfer α)) (t : Transfer α) :
    delivered (log ++ [t]) = deliver (delivered log) t := by simp [delivered]

variable [DecidableEq α]

/-- One transfer keeps the balance between accepted, delivered and queued data. -/
theorem step_balance {capacity : ℕ} {log : List (Transfer α)} {q r : List α} {t : Transfer α}
    (h : step capacity q t = some r)
    (hq : accepted log = delivered log ++ q ∧ q.length ≤ capacity) :
    accepted (log ++ [t]) = delivered (log ++ [t]) ++ r ∧ r.length ≤ capacity := by
  obtain ⟨hbal,hlen⟩ := hq
  rw [accepted_concat,delivered_concat]
  cases t with
  | put xs =>
    simp only [step, Option.ite_none_right_eq_some, Option.some.injEq] at h
    obtain ⟨hroom,rfl⟩ := h
    simpa [accept, deliver, hbal] using hroom
  | get xs =>
    simp only [step, Option.ite_none_right_eq_some, Option.some.injEq] at h
    obtain ⟨⟨rest,rfl⟩,rfl⟩ := h
    simp only [List.length_append] at hlen
    simp only [accept, deliver, List.drop_left, hbal, List.append_assoc, true_and]
    omega
  | clear =>
    cases h
    simp [accept, deliver]

/-- Conservation: a replayed log accounts for every accepted byte exactly once. -/
theorem conservation {capacity : ℕ} {log : List (Transfer α)} {q : List α}
    (h : run (step capacity) [] log = some q) :
    accepted log = delivered log ++ q ∧ q.length ≤ capacity := by
  induction log using List.reverseRecOn generalizing q with
  | nil => cases h; simp [accepted, delivered]
  | append_singleton log t ih =>
    obtain ⟨r,hr,ht⟩ := run_concat_eq_some.mp h
    exact step_balance ht (ih hr)

/-- What the last transfer still says of the length. -/
theorem length_of_last {capacity : ℕ} {log : List (Transfer α)} {t : Transfer α} {q : List α}
    (h : run (step capacity) [] log = some q) (hlast : log.getLast? = some t) :
    match t with
    | .put xs => xs.length ≤ q.length
    | .get xs => q.length+xs.length ≤ capacity
    | .clear => q = [] := by
  obtain ⟨before,rfl⟩ := List.getLast?_eq_some_iff.mp hlast
  obtain ⟨r,hr,ht⟩ := run_concat_eq_some.mp h
  have hlen := (conservation hr).2
  cases t with
  | put xs =>
    simp only [step, Option.ite_none_right_eq_some, Option.some.injEq] at ht
    simp [← ht.2]
  | get xs =>
    simp only [step, Option.ite_none_right_eq_some, Option.some.injEq] at ht
    obtain ⟨⟨rest,rfl⟩,rfl⟩ := ht
    simpa [Nat.add_comm] using hlen
  | clear =>
    cases ht
    rfl

/-- Accepting data leaves what was queued at the front. -/
theorem prefix_of_puts {capacity : ℕ} {log : List (Transfer α)} {q r : List α}
    (h : run (step capacity) q log = some r) (hputs : ∀ t ∈ log, ∃ xs, t = .put xs) : q <+: r := by
  induction log generalizing q with
  | nil => cases h; exact List.prefix_rfl
  | cons t log ih =>
    obtain ⟨m,hm,hr⟩ := run_cons_eq_some.mp h
    obtain ⟨xs,rfl⟩ := hputs _ List.mem_cons_self
    simp only [step, Option.ite_none_right_eq_some, Option.some.injEq] at hm
    obtain ⟨-,rfl⟩ := hm
    exact (List.prefix_append _ _).trans (ih hr fun t ht => hputs t (List.mem_cons_of_mem _ ht))

/-- The next delivery starts with what was queued, as far as it goes. -/
theorem next_get {capacity : ℕ} {log puts : List (Transfer α)} {q r xs : List α}
    (hq : run (step capacity) [] log = some q) (hputs : ∀ t ∈ puts, ∃ ys, t = .put ys)
    (h : run (step capacity) [] (log ++ puts ++ [.get xs]) = some r) : xs <+: q ∨ q <+: xs := by
  rw [List.append_assoc,run_append_eq_some] at h
  obtain ⟨q',hq',h⟩ := h
  rw [hq,Option.some.injEq] at hq'
  subst hq'
  obtain ⟨m,hm,hget⟩ := run_concat_eq_some.mp h
  simp only [step, Option.ite_none_right_eq_some] at hget
  exact List.prefix_or_prefix_of_prefix hget.1 (prefix_of_puts hm hputs)

end ExampleKernel.Foundation.BoundedQueue
