import ExampleKernel.Gpio.Led

/-! The contract of `example_gpio_write`, which the gpio_driver and the gpio_irq variant share, over every
sequence of calls while no interrupt comes. -/
namespace ExampleKernel.Gpio
open ExampleKernel.Foundation ExampleKernel.Kernel

def recBufSize : ℕ := 10

/-- A call with the stack that it finds and the place of `rec_buf` on it. -/
structure Write where
  stack : ℕ → UInt8
  recBuf : ℕ
  buf : ℕ → UInt8
  len : ℕ
  copy : UserCopy

namespace Write
variable (c : Write)

def result : WriteResult := exampleGpioWrite c.stack c.recBuf c.buf c.len c.copy

/-- All bytes asked for are copied. -/
def complete : Bool :=
  match c.copy with
  | .fault k _ => c.len ≤ k
  | .done => true

/-- The level that the user asks for, if the copy succeeds and the first byte is `'0'` or `'1'`. -/
def command : Option Bool :=
  if c.complete ∧ 0 < c.len then
    if (c.buf 0).toNat = '1'.toNat then some true
    else if (c.buf 0).toNat = '0'.toNat then some false
    else none
  else none

/-- The level of GPIO 21 after the call. -/
def levelAfter (level : Bool) : Bool := c.result.value.getD level

end Write

def writeStep (level : Bool) (c : Write) : Option Bool := some (c.levelAfter level)

/-- What is asked of a call: it writes the ten bytes of `rec_buf` only, whatever the stack holds; if it
commands a level it returns `len` and sets the level, otherwise it returns an error and leaves it. -/
structure Sound (level : Bool) (c : Write) : Prop where
  within : ∀ stack i, i < c.recBuf ∨ c.recBuf+recBufSize ≤ i →
    (exampleGpioWrite stack c.recBuf c.buf c.len c.copy).stack i = stack i
  done : ∀ v ∈ c.command, c.result.ret = c.len ∧ c.levelAfter level = v
  failed : c.command = none → c.result.ret < 0 ∧ c.levelAfter level = level

/-- The level that the last successful call of a sequence has commanded. -/
def commanded (level : Bool) (calls : List Write) : Bool := (calls.filterMap Write.command).getLast?.getD level

section Call
variable {c : Write}

/-- A complete copy leaves `len` bytes of the user over the ten zeros. -/
theorem stack_of_complete (h : c.complete = true) (stack : ℕ → UInt8) :
    (exampleGpioWrite stack c.recBuf c.buf c.len c.copy).stack =
      blit (blit stack c.recBuf recBufSize fun _ => 0) c.recBuf c.len c.buf := by
  unfold exampleGpioWrite
  cases hcopy : c.copy with
  | done => rfl
  | fault k rest =>
    simp only [Write.complete, hcopy, decide_eq_true_eq] at h
    simp only [if_neg h.not_gt]
    rfl

theorem complete_of_command {v : Bool} (h : c.command = some v) : c.complete = true ∧ 0 < c.len := by
  unfold Write.command at h
  split_ifs at h with hc
  all_goals exact hc

/-- The code compares the byte that the user sent first. -/
theorem value_of_command {v : Bool} (h : c.command = some v) : c.result.value = some v := by
  obtain ⟨hcomplete,hlen⟩ := complete_of_command h
  have hfirst : c.result.stack c.recBuf = c.buf 0 := by
    rw [Write.result,stack_of_complete hcomplete]
    exact blit_inside _ c.recBuf c.len c.buf hlen
  rw [Write.command,if_pos ⟨hcomplete,hlen⟩] at h
  have hvalue : c.result.value = if (c.result.stack c.recBuf).toNat = '1'.toNat then some true
      else if (c.result.stack c.recBuf).toNat = '0'.toNat then some false else none := rfl
  rw [hvalue,hfirst,← h]

theorem sound_iff (level : Bool) : Sound level c ↔ c.len ≤ recBufSize ∧ c.command.isSome := by
  have houtside : ∀ stack i, i < c.recBuf ∨ c.recBuf+recBufSize ≤ i →
      blit (blit stack c.recBuf recBufSize fun _ => 0) c.recBuf c.len c.buf i = blit stack c.recBuf c.len c.buf i :=
    fun stack i hi => blit_congr c.recBuf (blit_outside stack c.recBuf recBufSize _ hi) fun _ _ => rfl
  cases hcommand : c.command with
  | none =>
    refine iff_of_false (fun h => ?_) (by simp)
    have hret : (0 : ℤ) ≤ c.result.ret := Int.natCast_nonneg c.len
    exact hret.not_gt (h.failed hcommand).1
  | some v =>
    obtain ⟨hcomplete,-⟩ := complete_of_command hcommand
    rw [Option.isSome_some,and_iff_left rfl]
    have hwithin : c.len ≤ recBufSize ↔ ∀ stack i, i < c.recBuf ∨ c.recBuf+recBufSize ≤ i →
        (exampleGpioWrite stack c.recBuf c.buf c.len c.copy).stack i = stack i := by
      rw [← blit_within_iff c.recBuf recBufSize c.len c.buf]
      refine forall_congr' fun stack => forall_congr' fun i => imp_congr_right fun hi => ?_
      rw [stack_of_complete hcomplete,houtside stack i hi]
    rw [hwithin]
    refine ⟨Sound.within,fun h => ⟨h,fun u hu => ?_,fun hnone => ?_⟩⟩
    · obtain rfl := Option.some.inj (hcommand.symm.trans hu)
      exact ⟨rfl,by rw [Write.levelAfter,value_of_command hcommand]; rfl⟩
    · rw [hcommand] at hnone
      contradiction

end Call

theorem commanded_cons (level : Bool) {c : Write} {v : Bool} (h : c.command = some v) (calls : List Write) :
    commanded level (c::calls) = commanded v calls := by
  rw [commanded,List.filterMap_cons_some h,List.getLast?_cons]
  rfl

/-- Every call keeps the contract, and the level is the one that the last successful call has commanded,
exactly when each call brings at most ten bytes, its copy succeeds and it begins with `'0'` or `'1'`. -/
theorem write_effective_iff (level : Bool) (calls : List Write) :
    (Meets writeStep Sound level calls ∧ run writeStep level calls = some (commanded level calls)) ↔
      ∀ c ∈ calls, c.len ≤ recBufSize ∧ c.command.isSome := by
  induction calls generalizing level with
  | nil => simp [Meets, commanded]
  | cons c calls ih =>
    rw [List.forall_mem_cons,← sound_iff level]
    constructor
    · rintro ⟨⟨hsound,hmeets⟩,hrun⟩
      obtain ⟨v,hv⟩ := Option.isSome_iff_exists.mp ((sound_iff level).mp hsound).2
      have hlevel := (hsound.done v hv).2
      refine ⟨hsound,(ih v).mp ⟨?_,?_⟩⟩
      · exact hmeets v (congrArg some hlevel)
      · rw [commanded_cons level hv] at hrun
        rwa [run,writeStep,hlevel] at hrun
    · rintro ⟨hsound,hcalls⟩
      obtain ⟨v,hv⟩ := Option.isSome_iff_exists.mp ((sound_iff level).mp hsound).2
      have hlevel := (hsound.done v hv).2
      obtain ⟨hmeets,hrun⟩ := (ih v).mpr hcalls
      refine ⟨⟨hsound,fun t ht => ?_⟩,?_⟩
      · rw [writeStep,hlevel] at ht
        rwa [← Option.some.inj ht]
      · rw [commanded_cons level hv,run,writeStep,hlevel]
        exact hrun

/-- The copy of `10` faults after its first byte: the call returns 2 and the pin is high. -/
theorem failed_write_sets_level : ¬ ∀ (level : Bool) (calls : List Write),
    Meets writeStep Sound level calls ∧ run writeStep level calls = some (commanded level calls) := by
  intro h
  let c : Write := ⟨fun _ => 0,0,fun i => if i = 0 then 0x31 else 0x30,2,.fault 1 false⟩
  have hfailed := ((h false [c]).1.1.failed (by decide)).1
  exact absurd hfailed (by decide)

end ExampleKernel.Gpio
