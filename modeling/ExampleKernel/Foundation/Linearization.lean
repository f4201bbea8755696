import ExampleKernel.Foundation.Transition

/-! Linearizability of a history of calls. Time counts steps; a call is named by the time at
which it was made, takes effect at one later step, and returns at one later still. Keeping such
a book along a run is enough to order the effects consistently with real time. -/
namespace ExampleKernel.Foundation

/-- An operation that has taken effect. -/
structure Entry (ω : Type*) where
  invoked : ℕ
  point : ℕ
  op : ω

/-- The time, the operations in the order of their effects, and the return times of the calls. -/
structure Book (ω : Type*) where
  clock : ℕ
  entries : List (Entry ω)
  returned : ℕ → Option ℕ

/-- The call has an order of its operations that respects real time and that the sequential
object accepts, ending in a state that satisfies `final`. -/
def Linearizable {σ ω : Type*} (step : σ → ω → Option σ) (init : σ) (entries : List (Entry ω))
    (returned : ℕ → Option ℕ) (final : σ → Prop) : Prop :=
  ∃ order : List (Entry ω), order.Perm entries ∧
    (order.Pairwise fun a b => ∀ r, returned b.invoked = some r → a.invoked ≤ r) ∧
    ∃ s, run step init (order.map Entry.op) = some s ∧ final s

namespace Book
variable {ω : Type*}

def empty : Book ω := ⟨0,[],fun _ => none⟩

/-- A step in which no call takes effect or returns. -/
def tick (b : Book ω) : Book ω := {b with clock := b.clock+1}

/-- The call takes effect. -/
def log (b : Book ω) (id : ℕ) (op : ω) : Book ω :=
  {b.tick with entries := b.entries ++ [⟨id,b.clock,op⟩]}

/-- The call returns. -/
def finish (b : Book ω) (id : ℕ) : Book ω :=
  {b.tick with returned := Function.update b.returned id (some b.clock)}

end Book

/-- Where a process stands in its call. -/
inductive Phase
  | idle
  | pending (id : ℕ)
  | past (id : ℕ)

/-- The call that a process is in, if any. -/
def Phase.id? : Phase → Option ℕ
  | .idle => none
  | .pending id => some id
  | .past id => some id

/-- The book agrees with the phases of the processes. -/
structure Book.Kept {ω π : Type*} (b : Book ω) (phase : π → Phase) : Prop where
  started : ∀ p id, (phase p).id? = some id → id < b.clock
  distinct : ∀ p q id, (phase p).id? = some id → (phase q).id? = some id → p = q
  pending : ∀ p id, phase p = .pending id → ∀ e ∈ b.entries, e.invoked ≠ id
  past : ∀ p id, phase p = .past id → ∃ e ∈ b.entries, e.invoked = id
  stamped : ∀ e ∈ b.entries, e.invoked ≤ e.point ∧ e.point < b.clock
  once : (b.entries.map Entry.invoked).Nodup
  sorted : b.entries.Pairwise fun a b => a.point < b.point
  returned : ∀ id r, b.returned id = some r → ∃ e ∈ b.entries, e.invoked = id ∧ e.point ≤ r

namespace Book.Kept
variable {ω π : Type*} {b : Book ω} {phase : π → Phase}

theorem empty : (Book.empty : Book ω).Kept fun _ : π => Phase.idle := by
  constructor <;> simp [Book.empty, Phase.id?]

theorem tick (h : b.Kept phase) : b.tick.Kept phase where
  started p id hp := (h.started p id hp).trans (Nat.lt_succ_self _)
  distinct := h.distinct
  pending := h.pending
  past := h.past
  stamped e he := ⟨(h.stamped e he).1,(h.stamped e he).2.trans (Nat.lt_succ_self _)⟩
  once := h.once
  sorted := h.sorted
  returned := h.returned

/-- Entries of one call are one entry. -/
theorem entry_eq (h : b.Kept phase) {a c : Entry ω} (ha : a ∈ b.entries) (hc : c ∈ b.entries)
    (hid : a.invoked = c.invoked) : a = c :=
  List.inj_on_of_nodup_map h.once ha hc hid

/-- Every returned call has exactly one entry. -/
theorem complete (h : b.Kept phase) {id r : ℕ} (hr : b.returned id = some r) :
    ∃! e, e ∈ b.entries ∧ e.invoked = id := by
  obtain ⟨e,he,hid,-⟩ := h.returned id r hr
  exact ⟨e,⟨he,hid⟩,fun c hc => h.entry_eq hc.1 he (hc.2.trans hid.symm)⟩

/-- The order of effects linearizes the history, once the sequential object accepts it. -/
theorem linearizable (h : b.Kept phase) {σ : Type*} {step : σ → ω → Option σ} {init s : σ}
    {final : σ → Prop} (hrun : run step init (b.entries.map Entry.op) = some s) (hfinal : final s) :
    Linearizable step init b.entries b.returned final := by
  refine ⟨b.entries,List.Perm.refl _,?_,s,hrun,hfinal⟩
  refine h.sorted.imp_of_mem fun {a c} ha hc hac r hr => ?_
  obtain ⟨e,he,hid,hle⟩ := h.returned _ _ hr
  rw [h.entry_eq he hc hid] at hle
  have := (h.stamped a ha).1
  omega

variable [DecidableEq π]

/-- A new call gets the present time as its name. -/
theorem invoke (h : b.Kept phase) (p : π) :
    b.tick.Kept (Function.update phase p (.pending b.clock)) where
  started q id hq := by
    by_cases hqp : q = p
    · subst hqp
      simp only [Function.update_self, Phase.id?, Option.some.injEq] at hq
      exact hq ▸ Nat.lt_succ_self _
    · rw [Function.update_of_ne hqp] at hq
      exact h.tick.started q id hq
  distinct q r id hq hr := by
    by_cases hqp : q = p <;> by_cases hrp : r = p
    · exact hqp.trans hrp.symm
    · subst hqp
      simp only [Function.update_self, Function.update_of_ne hrp, Phase.id?, Option.some.injEq] at hq hr
      exact absurd (h.started r id hr) (by omega)
    · subst hrp
      simp only [Function.update_self, Function.update_of_ne hqp, Phase.id?, Option.some.injEq] at hq hr
      exact absurd (h.started q id hq) (by omega)
    · rw [Function.update_of_ne hqp] at hq
      rw [Function.update_of_ne hrp] at hr
      exact h.distinct q r id hq hr
  pending q id hq e he := by
    by_cases hqp : q = p
    · subst hqp
      simp only [Function.update_self, Phase.pending.injEq] at hq
      have := h.stamped e he
      omega
    · rw [Function.update_of_ne hqp] at hq
      exact h.pending q id hq e he
  past q id hq := by
    by_cases hqp : q = p
    · subst hqp; simp at hq
    · rw [Function.update_of_ne hqp] at hq
      exact h.past q id hq
  stamped := h.tick.stamped
  once := h.once
  sorted := h.sorted
  returned := h.returned

/-- A pending call takes effect at the present time. -/
theorem log (h : b.Kept phase) {p : π} {id : ℕ} (hp : phase p = .pending id) (op : ω) :
    (b.log id op).Kept (Function.update phase p (.past id)) := by
  have hid : ∀ q, (Function.update phase p (.past id) q).id? = (phase q).id? := by
    intro q
    by_cases hq : q = p
    · subst hq; simp [hp, Phase.id?]
    · rw [Function.update_of_ne hq]
  have hlt : id < b.clock := h.started p id (by rw [hp]; rfl)
  constructor
  · intro q i hq
    rw [hid] at hq
    exact h.tick.started q i hq
  · intro q r i hq hr
    rw [hid] at hq hr
    exact h.distinct q r i hq hr
  · intro q i hq e he
    have hqp : q ≠ p := by rintro rfl; simp at hq
    rw [Function.update_of_ne hqp] at hq
    rcases List.mem_append.mp he with he | he
    · exact h.pending q i hq e he
    · rw [List.mem_singleton.mp he]
      rintro rfl
      exact hqp (h.distinct q p id (by rw [hq]; rfl) (by rw [hp]; rfl))
  · intro q i hq
    by_cases hqp : q = p
    · subst hqp
      simp only [Function.update_self, Phase.past.injEq] at hq
      exact ⟨_,List.mem_append_right _ (List.mem_singleton_self _),hq⟩
    · rw [Function.update_of_ne hqp] at hq
      obtain ⟨e,he,hi⟩ := h.past q i hq
      exact ⟨e,List.mem_append_left _ he,hi⟩
  · intro e he
    rcases List.mem_append.mp he with he | he
    · exact h.tick.stamped e he
    · rw [List.mem_singleton.mp he]
      exact ⟨hlt.le,Nat.lt_succ_self _⟩
  · simp only [Book.log, List.map_append, List.map_singleton]
    refine h.once.append (List.nodup_singleton _) ?_
    simp only [List.disjoint_singleton, List.mem_map, not_exists, not_and]
    exact fun e he => h.pending p id hp e he
  · refine List.pairwise_append.mpr ⟨h.sorted,List.pairwise_singleton _ _,fun a ha c hc => ?_⟩
    rw [List.mem_singleton.mp hc]
    exact (h.stamped a ha).2
  · intro i r hr
    obtain ⟨e,he,hi⟩ := h.returned i r hr
    exact ⟨e,List.mem_append_left _ he,hi⟩

/-- A call that has taken effect returns at the present time. -/
theorem finish (h : b.Kept phase) {p : π} {id : ℕ} (hp : phase p = .past id) :
    (b.finish id).Kept (Function.update phase p .idle) := by
  have hkeep : ∀ q, Function.update phase p .idle q ≠ .idle → q ≠ p := by
    rintro q hq rfl
    simp at hq
  have hother : ∀ q i, (Function.update phase p .idle q).id? = some i → (phase q).id? = some i := by
    intro q i hq
    have hqp : q ≠ p := hkeep q (by intro hi; simp [hi, Phase.id?] at hq)
    rwa [Function.update_of_ne hqp] at hq
  constructor
  · exact fun q i hq => h.tick.started q i (hother q i hq)
  · exact fun q r i hq hr => h.distinct q r i (hother q i hq) (hother r i hr)
  · intro q i hq
    rw [Function.update_of_ne (hkeep q (by simp [hq]))] at hq
    exact h.pending q i hq
  · intro q i hq
    rw [Function.update_of_ne (hkeep q (by simp [hq]))] at hq
    exact h.past q i hq
  · exact h.tick.stamped
  · exact h.once
  · exact h.sorted
  · intro i r hr
    by_cases hi : i = id
    · subst hi
      simp only [Book.finish, Function.update_self, Option.some.injEq] at hr
      obtain ⟨e,he,hid⟩ := h.past p i hp
      exact ⟨e,he,hid,hr ▸ (h.stamped e he).2.le⟩
    · simp only [Book.finish, Function.update_of_ne hi] at hr
      exact h.returned i r hr

end Book.Kept

end ExampleKernel.Foundation
