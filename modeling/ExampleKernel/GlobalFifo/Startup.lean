import ExampleKernel.GlobalFifo.Discipline
import ExampleKernel.Kernel.Startup

/-! `globalfifo_init` side by side with the calls that reach the device from `cdev_add` on. -/
namespace ExampleKernel.GlobalFifo
open ExampleKernel.Foundation ExampleKernel.Kernel

inductive Object
  | mutex
  | wait (q : Side)
  deriving DecidableEq, Repr

inductive Entry
  | fops
  deriving DecidableEq, Repr

/-- The device is published by `cdev_add`, before its mutex and its wait queues are initialised. -/
def globalfifoInit : List (InitStep Object Entry) :=
  [.call, -- register_chrdev_region or alloc_chrdev_region
    .call, -- kzalloc
    .call, -- cdev_init
    .publish .fops,
    .init .mutex,
    .init (.wait .r),
    .init (.wait .w)]

/-- The objects that the effect of a statement uses. -/
def Effect.uses : Effect → List Object
  | .mutexLock | .mutexUnlock => [.mutex]
  | .addWaitQueue q | .removeWaitQueue q | .wakeUp q => [.wait q]
  | _ => []

/-- The initialisation of an object that was in use loses its holder or its entries. -/
def initObject (s : Sys) : Object → Sys
  | .mutex => {s with dev := {s.dev with mutex := none}}
  | .wait q => {s with dev := {s.dev with wait := Function.update s.dev.wait q []}}

def Sys.busy (s : Sys) : Object → Prop
  | .mutex => s.dev.mutex ≠ none
  | .wait q => s.dev.wait q ≠ []

def Act.entry : Act → Option Entry
  | .call _ _ | .run _ _ | .fasync _ _ | .release _ => some .fops
  | _ => none

def Act.uses (s : Sys) : Act → List Object
  | .run p c => (statement s.dev (s.task p) c).elim [] (·.2.uses)
  | _ => []

def startup : Startup Sys Act Object Entry where
  steps := globalfifoInit
  static _ := false
  act := step
  entry := Act.entry
  uses := Act.uses
  reset o s := initObject s o
  busy := Sys.busy

/-- The object, last in the order of `globalfifo_init`, that a call cannot do without. -/
def Call.guard : Call → Object
  | .read _ _ => .wait .r
  | .write _ _ _ | .poll _ => .wait .w
  | .ioctl _ => .mutex

/-- Where a call takes the mutex for the first time. -/
def Pc.locksFirst : Pc → Bool
  | .lock | .pollLock | .ioctlLock => true
  | _ => false

/-- Reads take the mutex only after the initialisation of `r_wait`, writes and polls after that of `w_wait`,
and clears after that of the mutex. -/
def Act.needs (s : Sys) : Act → List (InitStep Object Entry)
  | .run p _ => if (s.task p).pc.locksFirst then [.init (s.task p).call.guard] else []
  | _ => []

/-- A call relies on its object from its first `mutex_lock` on. -/
def Task.relies (t : Task) : Bool :=
  match t.pc with
  | .idle | .lock | .ioctlSwitch | .ioctlLock | .ret => false
  | .pollLock => t.polling
  | _ => true

/-- A read that has found bytes. -/
def Task.takes (t : Task) : Bool :=
  match t.call, t.pc with
  | .read _ _, .clamp | .read _ _, .copy | .read _ _, .shift | .read _ _, .account | .read _ _, .wake => true
  | _, _ => false

/-- A call under way relies on the object that it cannot do without, and bytes in the queue rely on
the wait queue of the writer that has put them there. -/
def Sys.pending (s : Sys) (x : InitStep Object Entry) : Prop :=
  (∃ p, (s.task p).relies = true ∧ x = .init (s.task p).call.guard) ∨
    x = .init (.wait .w) ∧ (s.dev.currentLen ≠ 0 ∨ ∃ p, (s.task p).takes = true)

/-- What a statement uses, and where bytes come from. -/
structure Needed (dev : GlobalfifoDev) (t t' : Task) (e : Effect) : Prop where
  call : t'.call = t.call
  uses : ∀ o ∈ e.uses, o = .wait .w ∧ t.takes = true ∨
    (t.relies = true ∨ t.pc.locksFirst = true) ∧ startup.Precedes (.init o) (.init t.call.guard)
  relies : t'.relies = true → t.relies = true ∨ t.pc.locksFirst = true
  takes : t'.takes = true → t.takes = true ∨ dev.currentLen ≠ 0
  puts : ∀ len transfer, e = .setLen len transfer → len ≠ 0 →
    t.takes = true ∨ t.relies = true ∧ t.call.guard = .wait .w

theorem precedes_mutex (o : Object) : startup.Precedes (.init .mutex) (.init o) := by
  obtain _ | q := o
  · decide
  · cases q <;> decide

theorem precedes_wait (q : Side) : startup.Precedes (.init (.wait q)) (.init (.wait .w)) := by
  cases q <;> decide

section Statements
attribute [local simp] Task.takes Task.relies Pc.locksFirst Call.guard Effect.uses precedes_mutex precedes_wait

theorem statement_needed {dev : GlobalfifoDev} {t t' : Task} {c : Choice} {e : Effect}
    (h : statement dev t c = some (t',e)) : Needed dev t t' e := by
  obtain ⟨_,_,hcall,h⟩ | ⟨_,_,_,hcall,h⟩ | ⟨_,hcall,h⟩ | ⟨_,hcall,h⟩ := statement_move h
  all_goals cases h <;> constructor <;> simp_all [Task.goto, Task.exit]

end Statements

theorem relies_enter (t : Task) (c : Call) : (t.enter c).relies = false := by
  cases c <;> rfl

theorem takes_enter (t : Task) (c : Call) : (t.enter c).takes = false := by
  cases c <;> rfl

theorem Nudge.relies {t t' : Task} (h : Nudge t t') : t'.relies = t.relies := by
  simp only [Task.relies, h.pc, h.polling]

theorem Nudge.takes {t t' : Task} (h : Nudge t t') : t'.takes = t.takes := by
  simp only [Task.takes, h.call, h.pc]

/-- What a statement holds or queues on it uses; what else is held or queued was so before. -/
theorem busy_apply {s : Sys} {p : Pid} {e : Effect} {o : Object} (h : (e.apply p s).busy o) :
    o ∈ e.uses ∨ s.busy o := by
  cases e with
  | mutexLock => cases o <;> simp_all [Effect.apply, Effect.uses, Sys.busy]
  | mutexUnlock => cases o <;> simp_all [Effect.apply, Effect.uses, Sys.busy]
  | addWaitQueue q =>
    cases o with
    | mutex => exact .inr h
    | wait q' =>
      by_cases hq : q' = q
      · rw [hq]; exact .inl (List.mem_singleton_self _)
      · right; simpa [Effect.apply, Sys.busy, Function.update_of_ne hq] using h
  | removeWaitQueue q =>
    cases o with
    | mutex => exact .inr h
    | wait q' =>
      by_cases hq : q' = q
      · rw [hq]; exact .inl (List.mem_singleton_self _)
      · right; simpa [Effect.apply, Sys.busy, Function.update_of_ne hq] using h
  | _ => exact .inr h

theorem busy_initObject {s : Sys} {o o' : Object} (h : (initObject s o).busy o') : s.busy o' := by
  cases o with
  | mutex =>
    cases o' with
    | mutex => exact absurd rfl h
    | wait q => exact h
  | wait q =>
    cases o' with
    | mutex => exact h
    | wait q' =>
      by_cases hq : q' = q
      · subst hq; exact absurd (Function.update_self _ _ _) h
      · simpa [initObject, Sys.busy, Function.update_of_ne hq] using h

theorem len_apply {s : Sys} {p : Pid} {e : Effect} (h : (e.apply p s).dev.currentLen ≠ 0) :
    (∃ len transfer, e = .setLen len transfer ∧ len ≠ 0) ∨ s.dev.currentLen ≠ 0 := by
  cases e with
  | setLen len transfer => exact .inl ⟨len,transfer,rfl,h⟩
  | _ => exact .inr h

section Runs
variable {s : Sys} {p : Pid} {t : Task} {e : Effect} {c : Choice} {x : InitStep Object Entry}

theorem relies_of_takes (h : (s.task p).takes = true) : startup.Relies Sys.pending s (.init (.wait .w)) :=
  .inl (.inr ⟨rfl,.inr ⟨p,h⟩⟩)

/-- Before its first `mutex_lock` a call is guarded, and after it, it relies on its object. -/
theorem covers_guard (h : (s.task p).relies = true ∨ (s.task p).pc.locksFirst = true) :
    startup.Covers Act.needs Sys.pending s (.run p c) (.init (s.task p).call.guard) := by
  obtain h | h := h
  · exact Startup.covers_of_pending (.inl ⟨p,h,rfl⟩)
  · exact Startup.covers_of_needs (by simp [Act.needs, h])

theorem covers_of_uses (hN : Needed s.dev (s.task p) t e) {o : Object} (ho : o ∈ e.uses) :
    startup.Covers Act.needs Sys.pending s (.run p c) (.init o) := by
  obtain ⟨rfl,htakes⟩ | ⟨hguard,hprec⟩ := hN.uses o ho
  · exact Startup.covers_of_relies (relies_of_takes htakes)
  · exact (covers_guard hguard).of_precedes hprec

theorem relies_of_len (h : s.dev.currentLen ≠ 0) : startup.Relies Sys.pending s (.init (.wait .w)) :=
  .inl (.inr ⟨rfl,.inl h⟩)

theorem covers_statement (hN : Needed s.dev (s.task p) t e)
    (hx : startup.Relies Sys.pending (e.apply p (s.setTask p t)) x) :
    startup.Covers Act.needs Sys.pending s (.run p c) x := by
  have hself := apply_setTask_self p s t e
  obtain (⟨q,hq,rfl⟩ | ⟨rfl,h | ⟨q,htakes⟩⟩) | ⟨o,rfl,hbusy⟩ := hx
  · by_cases hqp : q = p
    · subst hqp
      rw [hself.call,hN.call]
      exact covers_guard (hN.relies (hself.relies.symm.trans hq))
    · have hother := apply_setTask_other hqp s t e
      rw [hother.call]
      exact Startup.covers_of_pending (.inl ⟨q,hother.relies.symm.trans hq,rfl⟩)
  · apply Startup.covers_of_relies
    obtain ⟨len,transfer,he,hne⟩ | h := len_apply h
    · obtain htakes | ⟨hrelies,hg⟩ := hN.puts len transfer he hne
      · exact relies_of_takes htakes
      · exact .inl (.inl ⟨p,hrelies,by rw [hg]⟩)
    · exact relies_of_len h
  · apply Startup.covers_of_relies
    by_cases hqp : q = p
    · subst hqp
      obtain htakes | h := hN.takes (hself.takes.symm.trans htakes)
      · exact relies_of_takes htakes
      · exact relies_of_len h
    · exact relies_of_takes ((apply_setTask_other hqp s t e).takes.symm.trans htakes)
  · obtain ho | hbusy := busy_apply hbusy
    · exact covers_of_uses hN ho
    · exact Startup.covers_of_relies (.inr ⟨o,rfl,by cases o <;> exact hbusy⟩)

theorem relies_quiet {s' : Sys} (h : Quiet s s') (hx : startup.Relies Sys.pending s' x) :
    startup.Relies Sys.pending s x := by
  obtain (⟨q,hq,rfl⟩ | ⟨rfl,hlen | ⟨q,htakes⟩⟩) | ⟨o,rfl,hbusy⟩ := hx
  · rw [(h.task q).call]
    exact .inl (.inl ⟨q,(h.task q).relies.symm.trans hq,rfl⟩)
  · exact relies_of_len (h.currentLen ▸ hlen)
  · exact relies_of_takes ((h.task q).takes.symm.trans htakes)
  · refine .inr ⟨o,rfl,?_⟩
    cases o with
    | mutex =>
      show s.dev.mutex ≠ none
      rw [← h.mutex]
      exact hbusy
    | wait q =>
      show s.dev.wait q ≠ []
      rw [← h.wait]
      exact hbusy

theorem relies_call {d : Call} (hx : startup.Relies Sys.pending (s.setTask p ((s.task p).enter d)) x) :
    startup.Relies Sys.pending s x := by
  obtain (⟨q,hq,rfl⟩ | ⟨rfl,hlen | ⟨q,htakes⟩⟩) | ⟨o,rfl,hbusy⟩ := hx
  · by_cases hqp : q = p
    · subst hqp
      rw [setTask_self,relies_enter] at hq
      contradiction
    · rw [setTask_other s _ hqp] at hq ⊢
      exact .inl (.inl ⟨q,hq,rfl⟩)
  · exact relies_of_len hlen
  · by_cases hqp : q = p
    · subst hqp
      rw [setTask_self,takes_enter] at htakes
      contradiction
    · rw [setTask_other s _ hqp] at htakes
      exact relies_of_takes htakes
  · exact .inr ⟨o,rfl,by cases o <;> exact hbusy⟩

end Runs

/-- The device as `globalfifo_init` finds it: nothing done, and nobody in the driver. -/
def booting : Starting Sys := ⟨load,0⟩

theorem guarding : startup.Guarding Act.needs Sys.pending load := by
  refine ⟨by decide,?_,?_,?_,?_⟩
  · intro s a t h x hx
    obtain ⟨p,c,rfl,-,rfl⟩ | ⟨p,c,t,e,rfl,hst,rfl⟩ | hq := step_cases h
    · exact Startup.covers_of_relies (relies_call hx)
    · exact covers_statement (statement_needed hst) hx
    · exact Startup.covers_of_relies (relies_quiet hq hx)
  · intro s o x hx
    obtain hpending | ⟨o',rfl,hbusy⟩ := hx
    · left
      cases o <;> exact hpending
    · exact .inr ⟨o',rfl,busy_initObject hbusy⟩
  · intro s a o ho
    cases a with
    | run p c =>
      simp only [startup, Act.uses] at ho
      cases hst : statement s.dev (s.task p) c with
      | none => rw [hst] at ho; cases ho
      | some r =>
        rw [hst] at ho
        exact .inr (covers_of_uses (statement_needed hst) ho)
    | _ => cases ho
  · rintro x ((⟨q,hq,rfl⟩ | ⟨rfl,hlen | ⟨q,htakes⟩⟩) | ⟨o,rfl,hbusy⟩)
    · cases hq
    · exact hlen rfl
    · cases htakes
    · cases o <;> exact hbusy rfl

section Unguarded
variable {s : Sys} {n : ℕ} {p : Pid} {c : Choice}

theorem unsound_run {t : Task} {e : Effect} (hlive : startup.Live n (.run p c))
    (hst : statement s.dev (s.task p) c = some (t,e)) {o : Object} (ho : o ∈ e.uses)
    (hnot : ¬ startup.Reached n (.init o)) : ¬ startup.Sound ⟨s,n⟩ (.other (.run p c)) := by
  intro hsound
  obtain hstatic | hready := hsound hlive o (by simpa [startup, Act.uses, hst] using ho)
  · cases hstatic
  · exact hnot hready

theorem step_run {t : Task} {e : Effect} (hlive : startup.Live n (.run p c))
    (hst : statement s.dev (s.task p) c = some (t,e)) :
    startup.step ⟨s,n⟩ (.other (.run p c)) = some ⟨e.apply p (s.setTask p t),n⟩ := by
  rw [Startup.step,if_pos hlive]
  simp [startup, step, hst]

/-- A statement that does not wake or signal leaves the frame of its task as it is. -/
theorem task_after {t : Task} {e : Effect} (he : ∀ q, e ≠ .wakeUp q) (hk : e ≠ .killFasync) :
    (e.apply p (s.setTask p t)).task p = t := by
  cases e with
  | wakeUp q => exact absurd rfl (he q)
  | killFasync => exact absurd rfl hk
  | _ => exact setTask_self s p t

/-- What goes wrong after the mutex is taken goes wrong from there. -/
theorem unsound_after_lock {next : Pc} (more : List (StartupAct Act)) (hlive : startup.Live n (.run p c))
    (hst : statement s.dev (s.task p) c = some ((s.task p).goto next,.mutexLock))
    (hmore : ∀ u : Sys, u.task p = (s.task p).goto next → ¬ Meets startup.step startup.Sound ⟨u,n⟩ more) :
    ¬ Meets startup.step startup.Sound ⟨s,n⟩ (.other (.run p c)::more) :=
  not_meets_cons (step_run hlive hst) (hmore _ (task_after nofun nofun))

theorem unsound_read {nonblock : Bool} {count : UInt64} (hlive : startup.Live n (.run p c))
    (hcall : (s.task p).call = .read nonblock count) (hpc : (s.task p).pc = .addWait)
    (hnot : ¬ startup.Reached n (.init (.wait .r))) :
    ¬ Meets startup.step startup.Sound ⟨s,n⟩ [.other (.run p c)] := by
  have hst : statement s.dev (s.task p) c = some ((s.task p).goto .test,.addWaitQueue .r) := by
    simp only [statement, hcall, globalfifoRead, hpc]
  exact fun hm => unsound_run hlive hst (List.mem_singleton_self _) hnot hm.1

theorem unsound_write {nonblock : Bool} {count : UInt64} {buf : ℕ → UInt8} (hlive : startup.Live n (.run p c))
    (hcall : (s.task p).call = .write nonblock count buf) (hpc : (s.task p).pc = .addWait)
    (hnot : ¬ startup.Reached n (.init (.wait .w))) :
    ¬ Meets startup.step startup.Sound ⟨s,n⟩ [.other (.run p c)] := by
  have hst : statement s.dev (s.task p) c = some ((s.task p).goto .test,.addWaitQueue .w) := by
    simp only [statement, hcall, globalfifoWrite, hpc]
  exact fun hm => unsound_run hlive hst (List.mem_singleton_self _) hnot hm.1

theorem unsound_poll {events : Events} (hlive : startup.Live n (.run p c))
    (hcall : (s.task p).call = .poll events) (hpc : (s.task p).pc = .pollWaitR)
    (hpolling : (s.task p).polling = false) (hnot : ¬ startup.Reached n (.init (.wait .w))) :
    ¬ Meets startup.step startup.Sound ⟨s,n⟩ [.other (.run p c),.other (.run p c)] := by
  have hfirst : statement s.dev (s.task p) c = some ((s.task p).goto .pollWaitW,.addWaitQueue .r) := by
    simp [statement, hcall, doPoll, globalfifoPoll, pollWait, hpc, hpolling]
  apply not_meets_cons (step_run hlive hfirst)
  have htask : ((Effect.addWaitQueue .r).apply p (s.setTask p ((s.task p).goto .pollWaitW))).task p =
      (s.task p).goto .pollWaitW := task_after (by simp) (by simp)
  have hsecond : ∀ dev, statement dev ((s.task p).goto .pollWaitW) c =
      some ((s.task p).goto .pollTestR,.addWaitQueue .w) := by
    intro dev
    simp [statement, hcall, doPoll, globalfifoPoll, pollWait, Task.goto, hpolling]
  exact fun hm => unsound_run hlive (by rw [htask,hsecond]) (List.mem_singleton_self _) hnot hm.1

/-- A call that takes the mutex too early can go on to use an object that is not initialised. -/
theorem unsound_of_unguarded {acts : List (StartupAct Act)} {s t : Starting Sys} {a : StartupAct Act}
    (hC : Meets startup.step (startup.Guarded Act.needs) booting acts)
    (h : run startup.step booting acts = some s) (ht : startup.step s a = some t)
    (hbad : ¬ startup.Guarded Act.needs s a) : ∃ more, ¬ Meets startup.step startup.Sound s (a::more) := by
  have hbehind := Startup.behind_of_guarded guarding hC h
  obtain ⟨s,n⟩ := s
  cases a with
  | init => exact absurd trivial hbad
  | other a =>
    cases a with
    | run p c =>
      simp only [Startup.step, Option.ite_none_right_eq_some, Option.map_eq_some_iff] at ht
      obtain ⟨hlive,u,hu,-⟩ := ht
      simp only [startup, step, Option.map_eq_some_iff] at hu
      obtain ⟨⟨t,e⟩,hst,-⟩ := hu
      have hfirst : (s.task p).pc.locksFirst = true := by
        by_contra hn
        exact hbad (by simp [Startup.Guarded, Act.needs, hn])
      have hnot : ¬ startup.Reached n (.init (s.task p).call.guard) := by
        simpa [Startup.Guarded, Act.needs, hfirst] using hbad
      have hnow := hst
      cases hcall : (s.task p).call <;> cases hpc : (s.task p).pc <;>
        simp only [hpc, Pc.locksFirst, reduceCtorEq] at hfirst <;>
        simp only [statement, hcall, globalfifoRead, globalfifoWrite, globalfifoIoctl, doPoll, globalfifoPoll,
          hpc, mutexLock, reduceCtorEq, Option.ite_none_right_eq_some, Option.some.injEq, Prod.mk.injEq] at hst
      all_goals rw [hcall] at hnot
      case read.lock nonblock count =>
        obtain ⟨-,rfl,rfl⟩ := hst
        refine ⟨_,unsound_after_lock [.other (.run p c)] hlive hnow fun u htask => ?_⟩
        exact unsound_read hlive (by rw [htask]; exact hcall) (by rw [htask]; rfl) hnot
      case write.lock nonblock count buf =>
        obtain ⟨-,rfl,rfl⟩ := hst
        refine ⟨_,unsound_after_lock [.other (.run p c)] hlive hnow fun u htask => ?_⟩
        exact unsound_write hlive (by rw [htask]; exact hcall) (by rw [htask]; rfl) hnot
      case ioctl.ioctlLock cmd =>
        obtain ⟨-,rfl,rfl⟩ := hst
        exact ⟨[],fun hm => unsound_run hlive hnow (List.mem_singleton_self _) hnot hm.1⟩
      case poll.pollLock events =>
        obtain ⟨-,rfl,rfl⟩ := hst
        have hpolling : (s.task p).polling = false := by
          by_contra hn
          have hrelies : (s.task p).relies = true := by simpa [Task.relies, hpc] using hn
          exact hnot (hcall ▸ hbehind _ (.inl (.inl ⟨p,hrelies,rfl⟩)))
        refine ⟨_,unsound_after_lock [.other (.run p c),.other (.run p c)] hlive hnow fun u htask => ?_⟩
        exact unsound_poll hlive (by rw [htask]; exact hcall) (by rw [htask]; rfl) (by rw [htask]; exact hpolling) hnot
    | _ => exact absurd (by simp [Startup.Guarded, Act.needs]) hbad

end Unguarded

end ExampleKernel.GlobalFifo
