import ExampleKernel.GlobalMem.Teardown

/-! Values handed from interrupt 11 to `workqueue_fn` through one work item and the global
`sysfs_value`, while the module stays loaded. -/
namespace ExampleKernel.GlobalMem.Interrupts
open ExampleKernel.Foundation ExampleKernel.GlobalMem.Teardown

/-- `sysfs_show` raises interrupt 11; `sysfs_store` sets `sysfs_value` to what it scanned, or to what
it was. The others are one step of the handler, of `workqueue_fn` and of the tasklet. -/
inductive Event
  | sysfsShow
  | sysfsStore (v : ℤ)
  | handler
  | work
  | tasklet

def Event.act : Event → Act
  | .sysfsShow => .irq
  | .sysfsStore v => .store v
  | .handler => .handler
  | .work => .work
  | .tasklet => .tasklet

/-- `raised` is a history variable: `sysfs_value` at each interrupt since load, in their order. -/
structure Loaded where
  sys : State
  raised : List ℤ

def Loaded.raisedAfter (s : Loaded) : Event → List ℤ
  | .sysfsShow => s.raised ++ [s.sys.sysfsValue]
  | _ => s.raised

def step (s : Loaded) (e : Event) : Option Loaded :=
  (Teardown.step s.sys e.act).map fun t => ⟨t,s.raisedAfter e⟩

def load : Loaded := ⟨loaded,[]⟩

/-- No work is queued or running, and no interrupt is still to queue it. -/
def Settled (s : State) : Prop := s.handler ≠ .scheduleWork ∧ s.pending = false ∧ s.work = .idle

/-- `schedule_work` finds the work item free, and `workqueue_fn` finds `sysfs_value` as it was at
the interrupt it works for. -/
def InTime (s : Loaded) : Event → Prop
  | .handler => s.sys.handler = .scheduleWork → s.sys.pending = false
  | .work => s.sys.work = .kmalloc → s.raised[s.sys.headNode.length]? = some s.sys.sysfsValue
  | _ => True

instance (s : Loaded) : (e : Event) → Decidable (InTime s e)
  | .handler => inferInstanceAs (Decidable (_ → _))
  | .work => inferInstanceAs (Decidable (_ → _))
  | .sysfsShow | .sysfsStore _ | .tasklet => inferInstanceAs (Decidable True)

instance (s : State) : Decidable (Settled s) := inferInstanceAs (Decidable (_ ∧ _))

/-- The value in the node that `workqueue_fn` is about to link. -/
def carried : WorkPc → List ℤ
  | .listAddTail n => [n.data]
  | _ => []

/-- The values that have reached a node, in order. -/
def served (s : State) : List ℤ := s.headNode.map MyList.data ++ carried s.work

/-- Interrupts whose value has not reached a node yet. -/
def waiting (s : State) : ℕ :=
  (decide (s.handler = .scheduleWork)).toNat+s.pending.toNat+(decide (s.work = .kmalloc)).toNat

/-- Every interrupt is waiting or has been served with its own value. -/
def Tracked (s : Loaded) : Prop :=
  served s.sys <+: s.raised ∧ (served s.sys).length+waiting s.sys = s.raised.length

/-- Never more than the interrupts are waiting or served. -/
def Counted (s : Loaded) : Prop := (served s.sys).length+waiting s.sys ≤ s.raised.length

theorem counted_load : Counted load := le_rfl

theorem tracked_load : Tracked load := ⟨List.prefix_rfl,rfl⟩

theorem prefix_concat_iff {xs ys : List ℤ} {v : ℤ} : xs ++ [v] <+: ys ↔ xs <+: ys ∧ ys[xs.length]? = some v := by
  constructor
  · rintro ⟨zs,rfl⟩
    exact ⟨⟨v::zs,by simp⟩,by simp⟩
  · rintro ⟨⟨zs,rfl⟩,hv⟩
    rw [List.getElem?_append_right le_rfl,Nat.sub_self] at hv
    obtain ⟨w,ws,rfl⟩ : ∃ w ws, zs = w::ws := by cases zs <;> simp at hv ⊢
    obtain rfl : w = v := by simpa using hv
    exact ⟨ws,by simp⟩

/-- An interrupt more leaves what has been served a prefix of what has been raised. -/
theorem prefix_raise_iff {xs ys : List ℤ} {v : ℤ} (h : xs.length ≤ ys.length) : xs <+: ys ++ [v] ↔ xs <+: ys :=
  ⟨fun hx => List.prefix_of_prefix_length_le hx (List.prefix_append _ _) h,
    fun hx => hx.trans (List.prefix_append _ _)⟩

/-- What a step does to the served values, the waiting interrupts and the raised ones: it raises an
interrupt, or loses one, or takes the value for one, or does none of these. -/
inductive Moves (s t : Loaded) (e : Event) : Prop
  | raise (hserved : served t.sys = served s.sys) (hwaiting : waiting t.sys = waiting s.sys+1) (v : ℤ)
      (hraised : t.raised = s.raised ++ [v]) (hC : InTime s e)
  | lose (hserved : served t.sys = served s.sys) (hwaiting : waiting t.sys+1 = waiting s.sys)
      (hraised : t.raised = s.raised) (hC : ¬ InTime s e)
  | serve (hserved : served t.sys = served s.sys ++ [s.sys.sysfsValue])
      (hwaiting : waiting t.sys+1 = waiting s.sys) (hraised : t.raised = s.raised)
      (hC : InTime s e ↔ s.raised[(served s.sys).length]? = some s.sys.sysfsValue)
  | keep (hserved : served t.sys = served s.sys) (hwaiting : waiting t.sys = waiting s.sys)
      (hraised : t.raised = s.raised) (hC : InTime s e)

theorem step_moves {s t : Loaded} {e : Event} (h : step s e = some t) : Moves s t e := by
  obtain ⟨u,hu,rfl⟩ := Option.map_eq_some_iff.mp h
  cases e with
  | sysfsShow =>
    simp only [Event.act, Teardown.step, Option.ite_none_right_eq_some, Option.some.injEq] at hu
    obtain ⟨⟨hidle,-⟩,rfl⟩ := hu
    refine .raise rfl ?_ _ rfl trivial
    simp only [waiting, hidle, reduceCtorEq, decide_true, decide_false, Bool.toNat_true, Bool.toNat_false]
    omega
  | sysfsStore v =>
    cases hu
    exact .keep rfl rfl rfl trivial
  | handler =>
    simp only [Event.act, Teardown.step, irqHandler] at hu
    cases hh : s.sys.handler with
    | idle => simp [hh] at hu
    | scheduleWork =>
      simp only [hh, Option.some.injEq] at hu
      subst hu
      cases hp : s.sys.pending with
      | true =>
        refine .lose rfl ?_ rfl fun hC => ?_
        · simp only [waiting, hh, hp, reduceCtorEq, decide_true, decide_false, Bool.toNat_true, Bool.toNat_false]
          omega
        · have hfree := hC hh
          rw [hp] at hfree
          contradiction
      | false =>
        refine .keep rfl ?_ rfl fun _ => hp
        simp only [waiting, hh, hp, reduceCtorEq, decide_true, decide_false, Bool.toNat_true, Bool.toNat_false]
    | taskletSchedule | sendSig =>
      simp only [hh, Option.some.injEq] at hu
      subst hu
      refine .keep rfl ?_ rfl fun hC => ?_
      · simp [waiting, hh]
      · rw [hh] at hC; contradiction
  | work =>
    simp only [Event.act, Teardown.step, workqueueFn] at hu
    cases hw : s.sys.work with
    | idle =>
      simp only [hw, Option.ite_none_right_eq_some, Option.some.injEq] at hu
      obtain ⟨hp,rfl⟩ := hu
      refine .keep ?_ ?_ rfl fun hC => ?_
      · simp [served, carried, hw]
      · simp [waiting, hw, hp]
      · rw [hw] at hC; contradiction
    | kmalloc =>
      simp only [hw, Option.some.injEq] at hu
      subst hu
      refine .serve ?_ ?_ rfl ?_
      · simp [served, carried, hw]
      · simp [waiting, hw]
      · simp [InTime, served, carried, hw]
    | listAddTail n =>
      simp only [hw, Option.some.injEq] at hu
      subst hu
      refine .keep ?_ ?_ rfl fun hC => ?_
      · simp [served, carried, hw]
      · simp [waiting, hw]
      · rw [hw] at hC; contradiction
    | traverse temp count =>
      simp only [hw, Option.some.injEq] at hu
      subst hu
      refine .keep ?_ ?_ rfl fun hC => ?_
      · cases temp <;> simp [served, carried, hw]
      · cases temp <;> simp [waiting, hw]
      · rw [hw] at hC; contradiction
  | tasklet =>
    simp only [Event.act, Teardown.step, taskletFn] at hu
    split_ifs at hu <;> cases hu <;> exact .keep rfl rfl rfl trivial

theorem counted_step {s t : Loaded} {e : Event} (h : step s e = some t) (hs : Counted s) : Counted t := by
  unfold Counted at *
  cases step_moves h with
  | raise hserved hwaiting v hraised =>
    rw [hserved,hwaiting,hraised,List.length_append,List.length_singleton]
    omega
  | lose hserved hwaiting hraised => rw [hserved,hraised]; omega
  | serve hserved hwaiting hraised =>
    rw [hserved,hraised,List.length_append,List.length_singleton]
    omega
  | keep hserved hwaiting hraised => rwa [hserved,hwaiting,hraised]

/-- A step loses track of an interrupt exactly when it is not in time. -/
theorem tracked_step {s t : Loaded} {e : Event} (h : step s e = some t) (hs : Counted s) :
    Tracked t ↔ Tracked s ∧ InTime s e := by
  unfold Counted at hs
  unfold Tracked
  cases step_moves h with
  | raise hserved hwaiting v hraised hC =>
    rw [hserved,hwaiting,hraised,prefix_raise_iff (by omega),List.length_append,List.length_singleton]
    simp only [hC, and_true]
    exact and_congr_right fun _ => by omega
  | lose hserved hwaiting hraised hC =>
    rw [hserved,hraised]
    refine iff_of_false (fun ht => ?_) (fun ht => hC ht.2)
    have hlen := ht.2
    omega
  | serve hserved hwaiting hraised hC =>
    have hlen : (served s.sys).length+1+waiting t.sys = s.raised.length ↔
        (served s.sys).length+waiting s.sys = s.raised.length := by omega
    rw [hserved,hraised,prefix_concat_iff,hC,List.length_append,List.length_singleton,hlen]
    exact and_right_comm
  | keep hserved hwaiting hraised hC =>
    rw [hserved,hwaiting,hraised]
    simp only [hC, and_true]

/-- In a settled state an interrupt is tracked when its value is in the list, in its place. -/
theorem tracked_iff_of_settled {s : Loaded} (h : Settled s.sys) :
    Tracked s ↔ s.sys.headNode.map MyList.data = s.raised := by
  obtain ⟨hh,hp,hw⟩ := h
  have hserved : served s.sys = s.sys.headNode.map MyList.data := by simp [served, carried, hw]
  have hwaiting : waiting s.sys = 0 := by simp [waiting, hh, hp, hw]
  rw [Tracked,hserved,hwaiting,Nat.add_zero]
  refine ⟨fun ⟨hstart,hlen⟩ => hstart.eq_of_length hlen,fun heq => ?_⟩
  rw [heq]
  exact ⟨List.prefix_rfl,rfl⟩

/-- After every run that has settled, the list holds one node per interrupt, in the order of the
interrupts and with the value that was current at each, exactly when every step was in time. -/
theorem one_node_per_interrupt_iff {es : List Event} {s : Loaded} (h : run step load es = some s)
    (hsettled : Settled s.sys) : s.sys.headNode.map MyList.data = s.raised ↔ Meets step InTime load es := by
  rw [← tracked_iff_of_settled hsettled,
    last_iff_meets (fun _ _ _ => counted_step) (fun _ _ _ => tracked_step) h counted_load]
  exact and_iff_right tracked_load

/-- Two stores, each with an interrupt and its work before the next. -/
theorem one_node_per_interrupt_iff_two : ∃ es s, run step load es = some s ∧ Settled s.sys ∧
    s.raised = [7,9] ∧ s.sys.headNode.map MyList.data = s.raised := by
  let served : List Event := [.sysfsShow,.handler,.handler,.handler] ++ List.replicate 5 .work
  let es : List Event := [.sysfsStore 7] ++ served ++ [.sysfsStore 9] ++ served ++ [.work]
  obtain ⟨s,hs,hp⟩ := exists_of_run_any step load es (fun s => Settled s.sys ∧ s.raised = [7,9]) (by decide)
  obtain ⟨hsettled,hraised⟩ := of_decide_eq_true hp
  have hC : Meets step InTime load es :=
    meets_of_check (fun s e => decide (InTime s e)) (fun _ _ => of_decide_eq_true) (by decide)
  exact ⟨es,s,hs,hsettled,hraised,(one_node_per_interrupt_iff hs hsettled).mpr hC⟩

/-- A store between the interrupt and its work changes the value in the node, and a second interrupt
before the work starts leaves no node. -/
theorem interrupt_value_lost :
    (∃ es s, run step load es = some s ∧ Settled s.sys ∧ s.raised = [1] ∧
      s.sys.headNode.map MyList.data = [2]) ∧
    (∃ es s, run step load es = some s ∧ Settled s.sys ∧ s.raised = [3,4] ∧
      s.sys.headNode.map MyList.data = [4]) := by
  let raise : List Event := [.sysfsShow,.handler,.handler,.handler]
  constructor
  · obtain ⟨s,hs,hp⟩ := exists_of_run_any step load
      ([.sysfsStore 1] ++ raise ++ [.sysfsStore 2] ++ List.replicate 5 .work)
      (fun s => Settled s.sys ∧ s.raised = [1] ∧ s.sys.headNode.map MyList.data = [2]) (by decide)
    exact ⟨_,s,hs,of_decide_eq_true hp⟩
  · obtain ⟨s,hs,hp⟩ := exists_of_run_any step load
      ([.sysfsStore 3] ++ raise ++ [.sysfsStore 4] ++ raise ++ List.replicate 5 .work)
      (fun s => Settled s.sys ∧ s.raised = [3,4] ∧ s.sys.headNode.map MyList.data = [4]) (by decide)
    exact ⟨_,s,hs,of_decide_eq_true hp⟩

end ExampleKernel.GlobalMem.Interrupts
