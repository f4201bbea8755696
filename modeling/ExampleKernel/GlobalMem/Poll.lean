import ExampleKernel.Kernel.Basic

/-! Readiness of globalmem: `sysfs_store` and `sysfs_show` raise one flag each, and `globalmem_poll`
lowers the flags that it reports. A history is the list of the calls so far, the latest one last. -/
namespace ExampleKernel.GlobalMem.Poll
open ExampleKernel.Kernel

/-- The globals that `globalmem_poll` shares with the sysfs file. -/
structure State where
  sysfsValue : ℤ
  canRead : Bool
  canWrite : Bool

/-- `pollin` stands for `POLLIN | POLLRDNORM` and `pollout` for `POLLOUT | POLLWRNORM`. -/
structure Mask where
  pollin : Bool
  pollout : Bool
  deriving DecidableEq

def globalmemPoll (s : State) : Mask × State :=
  let (pollin,s) := if s.canRead then (true,{s with canRead := false}) else (false,s)
  let (pollout,s) := if s.canWrite then (true,{s with canWrite := false}) else (false,s)
  (⟨pollin,pollout⟩,s)

/-- `scanned` is the number that `sscanf` finds in the text, if there is one. -/
def sysfsStore (scanned : Option ℤ) (count : ℕ) (s : State) : ℤ × State :=
  (count,{s with sysfsValue := scanned.getD s.sysfsValue, canRead := true})

/-- `desc` tells whether `irq_to_desc` finds the descriptor of interrupt 11. -/
def sysfsShow (desc : Bool) (s : State) : ℤ × State :=
  if desc then ((toString s.sysfsValue).length,{s with canWrite := true}) else (-einval,s)

inductive Call
  | globalmemPoll (p : Pid)
  | sysfsStore (scanned : Option ℤ) (count : ℕ)
  | sysfsShow (desc : Bool)
  deriving DecidableEq

def Call.run (s : State) : Call → State
  | .globalmemPoll _ => (Poll.globalmemPoll s).2
  | .sysfsStore scanned count => (Poll.sysfsStore scanned count s).2
  | .sysfsShow desc => (Poll.sysfsShow desc s).2

/-- The state after the calls of a history. -/
def after (past : List Call) : State := past.foldl Call.run ⟨0,false,false⟩

/-- What a poller waits for: that it can read, or that it can write. -/
inductive Readiness
  | input
  | output

def Readiness.flag (s : State) : Readiness → Bool
  | .input => s.canRead
  | .output => s.canWrite

def Readiness.bit (m : Mask) : Readiness → Bool
  | .input => m.pollin
  | .output => m.pollout

/-- A store makes the device readable, and a successful show makes it writable. -/
def Readiness.raisedBy : Readiness → Call → Bool
  | .input, .sysfsStore _ _ => true
  | .output, .sysfsShow desc => desc
  | _, _ => false

/-- The next poll of `p` will be its first one after some event. -/
def FirstAfter (d : Readiness) (p : Pid) (past : List Call) : Prop :=
  ∃ before e rest, past = before ++ e::rest ∧ d.raisedBy e = true ∧ .globalmemPoll p ∉ rest

/-- Nobody has polled since the latest event. -/
def Undisturbed (d : Readiness) (past : List Call) : Prop :=
  ∃ before e rest, past = before ++ e::rest ∧ d.raisedBy e = true ∧ ∀ q, .globalmemPoll q ∉ rest

/-- In the run `calls` there is a poll of `p` with the history `past`. -/
def Polls (calls past : List Call) (p : Pid) : Prop := ∃ rest, calls = past ++ .globalmemPoll p::rest

theorem bit_globalmemPoll (d : Readiness) (s : State) : d.bit (globalmemPoll s).1 = d.flag s := by
  obtain ⟨v,r,w⟩ := s
  cases d <;> cases r <;> cases w <;> rfl

/-- An event raises the flag, a poll lowers it, and no other call touches it. -/
theorem flag_run (d : Readiness) (s : State) (c : Call) :
    d.flag (c.run s) = true ↔ d.raisedBy c = true ∨ (∀ q, c ≠ .globalmemPoll q) ∧ d.flag s = true := by
  obtain ⟨v,r,w⟩ := s
  cases c with
  | globalmemPoll p =>
    cases d <;> cases r <;> cases w <;>
      simp [Call.run, globalmemPoll, Readiness.flag, Readiness.raisedBy]
  | sysfsStore scanned count => cases d <;> simp [Call.run, sysfsStore, Readiness.flag, Readiness.raisedBy]
  | sysfsShow desc => cases d <;> cases desc <;> simp [Call.run, sysfsShow, Readiness.flag, Readiness.raisedBy]

theorem undisturbed_concat (d : Readiness) (past : List Call) (c : Call) :
    Undisturbed d (past ++ [c]) ↔ d.raisedBy c = true ∨ (∀ q, c ≠ .globalmemPoll q) ∧ Undisturbed d past := by
  constructor
  · rintro ⟨before,e,rest,hpast,he,hrest⟩
    obtain rfl | ⟨rest,a,rfl⟩ := rest.eq_nil_or_concat'
    · obtain ⟨-,hc⟩ := List.append_inj' hpast rfl
      obtain rfl := List.singleton_inj.mp hc
      exact .inl he
    · rw [← List.cons_append,← List.append_assoc] at hpast
      obtain ⟨rfl,hc⟩ := List.append_inj' hpast rfl
      obtain rfl := List.singleton_inj.mp hc
      refine .inr ⟨fun q hq => hrest q (by simp [hq]),before,e,rest,rfl,he,fun q hq => hrest q ?_⟩
      exact List.mem_append_left _ hq
  · rintro (hc | ⟨hc,before,e,rest,rfl,he,hrest⟩)
    · exact ⟨past,c,[],rfl,hc,fun _ => List.not_mem_nil⟩
    · refine ⟨before,e,rest ++ [c],by simp,he,fun q hq => ?_⟩
      obtain hq | hq := List.mem_append.mp hq
      · exact hrest q hq
      · exact hc q (List.mem_singleton.mp hq).symm

/-- The flag is up exactly while nobody has polled since the latest event. -/
theorem flag_iff_undisturbed (d : Readiness) (past : List Call) :
    d.flag (after past) = true ↔ Undisturbed d past := by
  induction past using List.reverseRecOn with
  | nil =>
    refine iff_of_false (by cases d <;> simp [after, Readiness.flag]) ?_
    rintro ⟨before,e,rest,hpast,-⟩
    simp at hpast
  | append_singleton past c ih =>
    have hafter : after (past ++ [c]) = c.run (after past) := by
      rw [after,List.foldl_concat]
      rfl
    rw [hafter,flag_run,ih,undisturbed_concat]

/-- A poll reports an event exactly if it is the first by anybody since the latest one. -/
theorem poll_sees_iff (d : Readiness) (past : List Call) :
    d.bit (globalmemPoll (after past)).1 = true ↔ Undisturbed d past := by
  rw [bit_globalmemPoll]
  exact flag_iff_undisturbed d past

/-- In every run of polls, stores and shows by any number of pollers, the polls that come first after
an event report it exactly if each of them is the first by anybody since the latest event. -/
theorem first_polls_see_iff (calls : List Call) :
    (∀ past p d, Polls calls past p → FirstAfter d p past → d.bit (globalmemPoll (after past)).1 = true) ↔
      ∀ past p d, Polls calls past p → FirstAfter d p past → Undisturbed d past := by
  simp only [poll_sees_iff]

/-- The poll of one process takes the event from the other, after a store and after a show. -/
theorem other_poll_takes_event :
    (FirstAfter .input 2 [.sysfsStore (some 4) 2,.globalmemPoll 1] ∧
      (globalmemPoll (after [.sysfsStore (some 4) 2,.globalmemPoll 1])).1 = ⟨false,false⟩) ∧
    (FirstAfter .output 2 [.sysfsShow true,.globalmemPoll 1] ∧
      (globalmemPoll (after [.sysfsShow true,.globalmemPoll 1])).1 = ⟨false,false⟩) :=
  ⟨⟨⟨[],_,_,rfl,rfl,by decide⟩,rfl⟩,⟨⟨[],_,_,rfl,rfl,by decide⟩,rfl⟩⟩

end ExampleKernel.GlobalMem.Poll
