import Mathlib.Tactic

/-! A kernel timer whose handler re-arms it. The handler runs at most once at a time; `del_timer`
does not wait for it. -/
namespace ExampleKernel.Kernel

/-- Where the handler is: not running, before its `mod_timer`, or after it. -/
inductive Phase
  | idle | entered | rearmed
  deriving DecidableEq, Repr

structure Timer where
  pending : Bool
  handler : Phase
  deriving DecidableEq, Repr

namespace Timer

/-- The timer expires: it is detached and its handler starts. -/
def fire (t : Timer) : Option Timer :=
  if t.pending = true ∧ t.handler = .idle then some ⟨false,.entered⟩ else none

/-- The handler's own `mod_timer`. -/
def rearm (t : Timer) : Option Timer := if t.handler = .entered then some ⟨true,.rearmed⟩ else none

def finish (t : Timer) : Option Timer := if t.handler = .rearmed then some {t with handler := .idle} else none

/-- The end of a handler that asks the timer code to start the timer again. -/
def restart (t : Timer) : Option Timer := if t.handler = .entered then some ⟨true,.idle⟩ else none

def modTimer (t : Timer) : Timer := {t with pending := true}

def delTimer (t : Timer) : Timer := {t with pending := false}

/-- Deleting a timer and waiting for its handler, as `hrtimer_cancel` does. -/
def cancel (t : Timer) : Option Timer := if t.handler = .idle then some t.delTimer else none

/-- A timer as set up, never started. -/
def stopped : Timer := ⟨false,.idle⟩

/-- Neither pending nor in its handler. -/
def Dead (t : Timer) : Prop := t.pending = false ∧ t.handler = .idle

instance (t : Timer) : Decidable t.Dead := inferInstanceAs (Decidable (_ ∧ _))

/-- Pending, or in a handler that will re-arm it. -/
def Armed (t : Timer) : Prop := t.pending = true ∨ t.handler = .entered

instance (t : Timer) : Decidable t.Armed := inferInstanceAs (Decidable (_ ∨ _))

theorem stopped_dead : stopped.Dead := ⟨rfl,rfl⟩

section Dead

variable {t u : Timer}

/-! Only a live timer takes a step of its own. -/

theorem not_dead_of_fire (h : t.fire = some u) : ¬ t.Dead := by
  rintro ⟨hp,-⟩
  simp [fire, hp] at h

theorem not_dead_of_rearm (h : t.rearm = some u) : ¬ t.Dead := by
  rintro ⟨-,hidle⟩
  simp [rearm, hidle] at h

theorem not_dead_of_finish (h : t.finish = some u) : ¬ t.Dead := by
  rintro ⟨-,hidle⟩
  simp [finish, hidle] at h

theorem not_dead_of_restart (h : t.restart = some u) : ¬ t.Dead := by
  rintro ⟨-,hidle⟩
  simp [restart, hidle] at h

/-- `del_timer` is enough exactly when the handler does not run. -/
theorem delTimer_dead_iff : t.delTimer.Dead ↔ t.handler = .idle := by simp [Dead, Timer.delTimer]

theorem cancel_dead (h : t.cancel = some u) : u.Dead := by
  simp only [cancel, Option.ite_none_right_eq_some, Option.some.injEq] at h
  obtain ⟨hidle,rfl⟩ := h
  exact ⟨rfl,hidle⟩

end Dead

section Armed

variable {t u : Timer}

theorem Armed.not_dead (h : t.Armed) : ¬ t.Dead := by
  rintro ⟨hp,hh⟩
  obtain h | h := h <;> simp_all

theorem modTimer_armed (t : Timer) : t.modTimer.Armed := .inl rfl

theorem not_armed_iff : ¬ t.Armed ↔ t.pending = false ∧ t.handler ≠ .entered := by
  simp [Armed]

/-! The steps of an expiration neither arm a timer nor disarm it. -/

theorem fire_armed_iff (h : t.fire = some u) : u.Armed ↔ t.Armed := by
  simp only [fire, Option.ite_none_right_eq_some, Option.some.injEq] at h
  obtain ⟨⟨hp,-⟩,rfl⟩ := h
  exact iff_of_true (.inr rfl) (.inl hp)

theorem rearm_armed_iff (h : t.rearm = some u) : u.Armed ↔ t.Armed := by
  simp only [rearm, Option.ite_none_right_eq_some, Option.some.injEq] at h
  obtain ⟨he,rfl⟩ := h
  exact iff_of_true (.inl rfl) (.inr he)

theorem finish_armed_iff (h : t.finish = some u) : u.Armed ↔ t.Armed := by
  simp only [finish, Option.ite_none_right_eq_some, Option.some.injEq] at h
  obtain ⟨hre,rfl⟩ := h
  simp [Armed, hre]

theorem restart_armed_iff (h : t.restart = some u) : u.Armed ↔ t.Armed := by
  simp only [restart, Option.ite_none_right_eq_some, Option.some.injEq] at h
  obtain ⟨he,rfl⟩ := h
  exact iff_of_true (.inl rfl) (.inr he)

end Armed

end Timer

end ExampleKernel.Kernel
