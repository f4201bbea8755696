import Mathlib.Tactic

/-! An alarm that is set again whenever it goes off: to a period from now, or to the next point of the grid that
its first deadline and its period span. -/
namespace ExampleKernel.Foundation

/-- When the alarm may go off, how often it has gone off, and the time lost so far by going off late. -/
structure Alarm where
  due : ℕ
  fires : ℕ
  lost : ℕ

namespace Alarm

/-- Set again to a period from now: whatever it was late is lost. -/
def relative (period now : ℕ) (a : Alarm) : Alarm := ⟨now+period,a.fires+1,a.lost+(now-a.due)⟩

/-- Set again to the next point of the grid: only whole periods are lost. -/
def grid (period now : ℕ) (a : Alarm) : Alarm :=
  ⟨a.due+period*((now-a.due)/period+1),a.fires+1,a.lost+period*((now-a.due)/period)⟩

/-- The deadline is a period a time, the first one and those gone off, plus what was lost; and it is at most a
period away. -/
structure Paced (start period now : ℕ) (a : Alarm) : Prop where
  due : a.due = start+period*(a.fires+1)+a.lost
  soon : a.due ≤ now+period

variable {start period now : ℕ} {a : Alarm}

theorem Paced.mono {now' : ℕ} (h : Paced start period now a) (hle : now ≤ now') : Paced start period now' a :=
  ⟨h.due,h.soon.trans (Nat.add_le_add_right hle period)⟩

theorem relative_paced (h : Paced start period now a) (hdue : a.due ≤ now) :
    Paced start period now (a.relative period now) := by
  refine ⟨?_,le_rfl⟩
  have hlate : a.due+(now-a.due) = now := Nat.add_sub_cancel' hdue
  have := h.due
  simp only [relative, Nat.mul_succ]
  rw [Nat.mul_succ] at this
  omega

theorem grid_paced (h : Paced start period now a) (hdue : a.due ≤ now) :
    Paced start period now (a.grid period now) := by
  have hround : period*((now-a.due)/period) ≤ now-a.due := Nat.mul_div_le _ _
  have := h.due
  constructor
  · simp only [grid, Nat.mul_succ] at this ⊢
    omega
  · simp only [grid, Nat.mul_succ]
    omega

/-- An alarm that goes off less than a period late loses nothing. -/
theorem grid_prompt (hprompt : now < a.due+period) : (a.grid period now).lost = a.lost := by
  have hnone : (now-a.due)/period = 0 := Nat.div_eq_zero_iff.mpr (by omega)
  simp only [grid, hnone, Nat.mul_zero, Nat.add_zero]

/-- It never goes off ahead of the clock. -/
theorem Paced.fires_le (h : Paced start period now a) : start+period*a.fires+a.lost ≤ now := by
  have := h.due
  have := h.soon
  rw [Nat.mul_succ] at *
  omega

/-- While it is not overdue, the fires are the periods that have passed. -/
theorem Paced.fires_eq (h : Paced start period now a) (hperiod : 0 < period) (hahead : now < a.due) :
    a.fires = (now-start-a.lost)/period := by
  have hle := h.fires_le
  have hdue := h.due
  rw [Nat.mul_succ] at hdue
  symm
  rw [Nat.div_eq_iff hperiod]
  rw [Nat.mul_comm a.fires]
  omega

end Alarm

end ExampleKernel.Foundation
