import ExampleKernel.Foundation.Transition

/-! Unloading globalmem while interrupt 11 still comes in: `globalmem_exit` interleaved with
`irq_handler`, with the work item it queues and with the tasklet it schedules. -/
namespace ExampleKernel.GlobalMem.Teardown
open ExampleKernel.Foundation

/-- Program points of `globalmem_exit`, each before the statement it is named after. -/
inductive ExitPc
  | hrtimerCancel | delTimer | taskletKill | kfreeTasklet | kthreadStop | kthreadStop2
  | listFirst | listTest | listDel | kfreeCursor | freeIrq | remove | returned
  deriving DecidableEq

inductive HandlerPc
  | idle | scheduleWork | taskletSchedule | sendSig
  deriving DecidableEq

/-- `struct my_list`, named by the address that `kmalloc` returned. -/
structure MyList where
  addr : ℕ
  data : ℤ
  deriving DecidableEq

inductive WorkPc
  | idle
  | kmalloc
  | listAddTail (tempNode : MyList)
  | traverse (temp : Option ℕ) (count : ℕ)
  deriving DecidableEq

structure Tasklet where
  scheduled : Bool
  running : Bool
  freed : Bool
  deriving DecidableEq

/-- `irqFreed` tells that `free_irq` has returned, `nextAddr` is the next address of `kmalloc`.
`freedScheduled` and `ranEmptied` are history: a freed tasklet was scheduled, and
`workqueue_fn` ran on the list that was already emptied. -/
structure State where
  exit : ExitPc
  cursor : Option ℕ
  temp : Option ℕ
  headNode : List MyList
  allocated : List ℕ
  nextAddr : ℕ
  handler : HandlerPc
  irqFreed : Bool
  pending : Bool
  work : WorkPc
  tasklet : Tasklet
  sysfsValue : ℤ
  freedScheduled : Bool
  ranEmptied : Bool

/-- The entry after `addr`, `none` for the head of the list. -/
def nextEntry (addr : ℕ) : List MyList → Option ℕ
  | [] => none
  | n::ns => if n.addr = addr then ns.head?.map MyList.addr else nextEntry addr ns

def firstEntry (ns : List MyList) : Option ℕ := ns.head?.map MyList.addr

def listDel (addr : ℕ) (ns : List MyList) : List MyList := ns.eraseP fun n => n.addr = addr

def Tasklet.idle (k : Tasklet) : Bool := !k.scheduled && !k.running

/-- The emptying of the list is over. -/
def ExitPc.emptied : ExitPc → Bool
  | .freeIrq | .remove | .returned => true
  | _ => false

/-- `globalmem_exit`. `tasklet_kill` waits for the tasklet, `free_irq` for the handler; after
`free_irq` nothing here belongs to the handler. -/
def globalmemExit (s : State) : Option State :=
  match s.exit with
  | .hrtimerCancel => some {s with exit := .delTimer}
  | .delTimer => some {s with exit := .taskletKill}
  | .taskletKill => if s.tasklet.idle then some {s with exit := .kfreeTasklet} else none
  | .kfreeTasklet => some {s with tasklet := {s.tasklet with freed := true}, exit := .kthreadStop}
  | .kthreadStop => some {s with exit := .kthreadStop2}
  | .kthreadStop2 => some {s with exit := .listFirst}
  | .listFirst => some {s with
      cursor := firstEntry s.headNode
      temp := (firstEntry s.headNode).bind fun c => nextEntry c s.headNode
      exit := .listTest}
  | .listTest => some {s with exit := if s.cursor.isSome then .listDel else .freeIrq}
  | .listDel => s.cursor.map fun c => {s with headNode := listDel c s.headNode, exit := .kfreeCursor}
  | .kfreeCursor => s.cursor.map fun c => {s with
      allocated := s.allocated.erase c
      cursor := s.temp
      temp := s.temp.bind fun n => nextEntry n s.headNode
      exit := .listTest}
  | .freeIrq => if s.handler = .idle then some {s with irqFreed := true, exit := .remove} else none
  | .remove => some {s with exit := .returned}
  | .returned => none

/-- One step of `irq_handler`; whom it signals is followed in `Signals`. -/
def irqHandler (s : State) : Option State :=
  match s.handler with
  | .idle => none
  | .scheduleWork => some {s with pending := true, handler := .taskletSchedule}
  | .taskletSchedule => some {s with
      tasklet := {s.tasklet with scheduled := true}
      freedScheduled := s.freedScheduled || s.tasklet.freed
      handler := .sendSig}
  | .sendSig => some {s with handler := .idle}

/-- One step of `workqueue_fn`, on a queued work item or one it runs already. -/
def workqueueFn (s : State) : Option State :=
  match s.work with
  | .idle => if s.pending then some {s with pending := false, work := .kmalloc} else none
  | .kmalloc => some {s with
      allocated := s.allocated ++ [s.nextAddr]
      work := .listAddTail ⟨s.nextAddr,s.sysfsValue⟩
      nextAddr := s.nextAddr+1}
  | .listAddTail n => some {s with
      headNode := s.headNode ++ [n]
      work := .traverse (firstEntry (s.headNode ++ [n])) 0
      ranEmptied := s.ranEmptied || s.exit.emptied}
  | .traverse temp count => some {s with
      work := match temp with
        | some n => .traverse (nextEntry n s.headNode) (count+1)
        | none => .idle
      ranEmptied := s.ranEmptied || s.exit.emptied}

/-- The tasklet starts, which takes its scheduled bit, or ends. -/
def taskletFn (s : State) : Option State :=
  if s.tasklet.running then some {s with tasklet := {s.tasklet with running := false}}
  else if s.tasklet.scheduled then
    some {s with tasklet := {s.tasklet with running := true, scheduled := false}}
  else none

inductive Act
  | exit
  | irq
  | handler
  | work
  | tasklet
  | store (v : ℤ)

def step (s : State) : Act → Option State
  | .exit => globalmemExit s
  | .irq => if s.handler = .idle ∧ s.irqFreed = false then some {s with handler := .scheduleWork} else none
  | .handler => irqHandler s
  | .work => workqueueFn s
  | .tasklet => taskletFn s
  | .store v => some {s with sysfsValue := v}

/-- The module as `globalmem_init` leaves it. -/
def loaded : State where
  exit := .hrtimerCancel
  cursor := none
  temp := none
  headNode := []
  allocated := []
  nextAddr := 0
  handler := .idle
  irqFreed := false
  pending := false
  work := .idle
  tasklet := ⟨false,false,false⟩
  sysfsValue := 0
  freedScheduled := false
  ranEmptied := false

/-- No freed tasklet was scheduled, no work ran on the emptied list, and a `globalmem_exit` that
returned leaves no node, no work and no tasklet behind. -/
structure Safe (s : State) : Prop where
  tasklet : s.freedScheduled = false
  list : s.ranEmptied = false
  returned : s.exit = .returned → s.allocated = [] ∧ (s.pending = false ∧ s.work = .idle) ∧
    s.tasklet.idle = true

/-- The handler has `tasklet_schedule` still before it. -/
def HandlerPc.schedules : HandlerPc → Bool
  | .scheduleWork | .taskletSchedule => true
  | _ => false

/-- No interrupt comes once the tasklet is freed, the handler and the tasklet are through with it
when it is, and the work item is idle when the list begins to be emptied. -/
def Quiet (s : State) : Act → Prop
  | .irq => s.tasklet.freed = false
  | .exit => (s.exit = .kfreeTasklet → s.handler.schedules = false ∧ s.tasklet.idle = true) ∧
      (s.exit = .listFirst → s.pending = false ∧ s.work = .idle)
  | _ => True

/-- `kfree(tasklet)` is done. -/
def ExitPc.freedTasklet : ExitPc → Bool
  | .hrtimerCancel | .delTimer | .taskletKill | .kfreeTasklet => false
  | _ => true

/-- The emptying of the list has begun. -/
def ExitPc.emptying : ExitPc → Bool
  | .listTest | .listDel | .kfreeCursor | .freeIrq | .remove | .returned => true
  | _ => false

/-- The node that `workqueue_fn` has allocated but not linked. -/
def WorkPc.unlinked : WorkPc → List ℕ
  | .listAddTail n => [n.addr]
  | _ => []

/-- The allocated nodes are those in the list, up to the one being removed; `temp` is the entry
that will come first when `cursor` is gone. -/
def Owned (s : State) : Prop :=
  match s.exit with
  | .listTest => s.allocated = s.headNode.map MyList.addr ∧ s.cursor = firstEntry s.headNode ∧
      s.temp = firstEntry s.headNode.tail
  | .listDel => s.allocated = s.headNode.map MyList.addr ∧ s.temp = firstEntry s.headNode.tail ∧
      ∃ c, s.cursor = some c ∧ firstEntry s.headNode = some c
  | .kfreeCursor => s.temp = firstEntry s.headNode ∧
      ∃ c, s.cursor = some c ∧ s.allocated = c :: s.headNode.map MyList.addr
  | .freeIrq | .remove | .returned => s.allocated = []
  | _ => s.allocated = s.headNode.map MyList.addr ++ s.work.unlinked

structure Inv (s : State) : Prop where
  freedScheduled : s.freedScheduled = false
  ranEmptied : s.ranEmptied = false
  freed : s.tasklet.freed = s.exit.freedTasklet
  tasklet : s.tasklet.freed = true → s.handler.schedules = false ∧ s.tasklet.idle = true
  work : s.exit.emptying = true → s.pending = false ∧ s.work = .idle
  owned : Owned s

@[simp] theorem nextEntry_head (n : MyList) (ns : List MyList) :
    nextEntry n.addr (n::ns) = firstEntry ns := if_pos rfl

@[simp] theorem listDel_head (n : MyList) (ns : List MyList) : listDel n.addr (n::ns) = ns := by
  simp [listDel]

/-- The entry after the first one is the first of the rest. -/
theorem next_firstEntry (ns : List MyList) :
    ((firstEntry ns).bind fun c => nextEntry c ns) = firstEntry ns.tail := by
  cases ns with
  | nil => rfl
  | cons n ns => exact nextEntry_head n ns

theorem inv_loaded : Inv loaded := ⟨rfl,rfl,rfl,nofun,nofun,rfl⟩

theorem safe_of_inv {s : State} (hs : Inv s) : Safe s := by
  refine ⟨hs.freedScheduled,hs.ranEmptied,fun hret => ⟨?_,hs.work (by rw [hret]; rfl),?_⟩⟩
  · have howned := hs.owned
    rwa [Owned,hret] at howned
  · exact (hs.tasklet (by rw [hs.freed,hret]; rfl)).2

theorem inv_exit {s t : State} (h : globalmemExit s = some t) (hC : Quiet s .exit) (hs : Inv s) : Inv t := by
  obtain ⟨hsched,hran,hfreed,htasklet,hwork,howned⟩ := hs
  unfold globalmemExit at h
  cases hpc : s.exit with
  | hrtimerCancel | delTimer | kthreadStop | kthreadStop2 | remove =>
    simp only [hpc, Option.some.injEq] at h
    subst h
    simp only [Owned, hpc] at howned hfreed hwork
    exact ⟨hsched,hran,hfreed,htasklet,hwork,howned⟩
  | taskletKill =>
    simp only [hpc, Option.ite_none_right_eq_some, Option.some.injEq] at h
    obtain ⟨-,rfl⟩ := h
    simp only [Owned, hpc] at howned hfreed
    exact ⟨hsched,hran,hfreed,htasklet,nofun,howned⟩
  | kfreeTasklet =>
    simp only [hpc, Option.some.injEq] at h
    subst h
    simp only [Owned, hpc] at howned
    exact ⟨hsched,hran,rfl,fun _ => hC.1 hpc,nofun,howned⟩
  | listFirst =>
    simp only [hpc, Option.some.injEq] at h
    subst h
    obtain ⟨hpending,hidle⟩ := hC.2 hpc
    simp only [Owned, hpc, hidle, WorkPc.unlinked, List.append_nil] at howned hfreed
    exact ⟨hsched,hran,hfreed,htasklet,fun _ => ⟨hpending,hidle⟩,howned,rfl,next_firstEntry _⟩
  | listTest =>
    simp only [hpc, Option.some.injEq] at h
    subst h
    simp only [Owned, hpc] at howned hfreed hwork
    obtain ⟨halloc,hcursor,htemp⟩ := howned
    cases hhead : s.headNode with
    | nil =>
      rw [hhead] at hcursor halloc
      rw [show s.cursor.isSome = false by rw [hcursor]; rfl]
      exact ⟨hsched,hran,hfreed,htasklet,hwork,halloc⟩
    | cons n ns =>
      rw [hhead] at hcursor halloc htemp
      rw [show s.cursor.isSome = true by rw [hcursor]; rfl]
      exact ⟨hsched,hran,hfreed,htasklet,hwork,halloc,htemp,n.addr,hcursor,rfl⟩
  | listDel =>
    simp only [Owned, hpc] at howned hfreed hwork
    obtain ⟨halloc,htemp,c,hcursor,hfirst⟩ := howned
    cases hhead : s.headNode with
    | nil => rw [hhead] at hfirst; contradiction
    | cons n ns =>
      rw [hhead] at halloc htemp hfirst
      have hc : n.addr = c := Option.some.inj hfirst
      subst hc
      simp only [hpc, hcursor, hhead, Option.map_some, Option.some.injEq, listDel_head] at h
      subst h
      exact ⟨hsched,hran,hfreed,htasklet,hwork,htemp,n.addr,rfl,halloc⟩
  | kfreeCursor =>
    simp only [Owned, hpc] at howned hfreed hwork
    obtain ⟨htemp,c,hcursor,halloc⟩ := howned
    simp only [hpc, hcursor, halloc, htemp, Option.map_some, Option.some.injEq, List.erase_cons_head,
      next_firstEntry] at h
    subst h
    exact ⟨hsched,hran,hfreed,htasklet,hwork,rfl,rfl,rfl⟩
  | freeIrq =>
    simp only [hpc, Option.ite_none_right_eq_some, Option.some.injEq] at h
    obtain ⟨-,rfl⟩ := h
    simp only [Owned, hpc] at howned hfreed hwork
    exact ⟨hsched,hran,hfreed,htasklet,hwork,howned⟩
  | returned => simp [hpc] at h

theorem ExitPc.freedTasklet_of_emptying {pc : ExitPc} (h : pc.emptying = true) : pc.freedTasklet = true := by
  cases pc <;> first | rfl | contradiction

theorem ExitPc.emptying_of_emptied {pc : ExitPc} (h : pc.emptied = true) : pc.emptying = true := by
  cases pc <;> first | rfl | contradiction

theorem inv_irq {s t : State} (h : step s .irq = some t) (hC : Quiet s .irq) (hs : Inv s) : Inv t := by
  obtain ⟨hsched,hran,hfreed,htasklet,hwork,howned⟩ := hs
  simp only [step, Option.ite_none_right_eq_some, Option.some.injEq] at h
  obtain ⟨-,rfl⟩ := h
  exact ⟨hsched,hran,hfreed,fun hf => by rw [hC] at hf; contradiction,hwork,howned⟩

/-- While the handler is before `tasklet_schedule`, the tasklet is there. -/
theorem live_of_schedules {s : State} (hs : Inv s) (h : s.handler.schedules = true) :
    s.tasklet.freed = false := by
  by_contra hfreed
  have hdone := (hs.tasklet (by simpa using hfreed)).1
  rw [h] at hdone
  contradiction

theorem inv_handler {s t : State} (h : irqHandler s = some t) (hs : Inv s) : Inv t := by
  unfold irqHandler at h
  cases hpc : s.handler with
  | idle => simp [hpc] at h
  | scheduleWork =>
    have hlive := live_of_schedules hs (by rw [hpc]; rfl)
    obtain ⟨hsched,hran,hfreed,-,-,howned⟩ := hs
    simp only [hpc, Option.some.injEq] at h
    subst h
    refine ⟨hsched,hran,hfreed,fun hf => ?_,fun hempty => ?_,howned⟩
    · rw [hlive] at hf; contradiction
    · rw [ExitPc.freedTasklet_of_emptying hempty,hlive] at hfreed; contradiction
  | taskletSchedule =>
    have hlive := live_of_schedules hs (by rw [hpc]; rfl)
    obtain ⟨hsched,hran,hfreed,-,hwork,howned⟩ := hs
    simp only [hpc, Option.some.injEq] at h
    subst h
    refine ⟨by rw [hsched,hlive]; rfl,hran,hfreed,fun hf => ?_,hwork,howned⟩
    rw [hlive] at hf
    contradiction
  | sendSig =>
    obtain ⟨hsched,hran,hfreed,htasklet,hwork,howned⟩ := hs
    simp only [hpc, Option.some.injEq] at h
    subst h
    exact ⟨hsched,hran,hfreed,fun hf => ⟨rfl,(htasklet hf).2⟩,hwork,howned⟩

/-- Outside the emptying, only the node that is not linked yet is missing from the list. -/
theorem owned_of_not_emptying {s : State} (h : s.exit.emptying = false) :
    Owned s ↔ s.allocated = s.headNode.map MyList.addr ++ s.work.unlinked := by
  unfold Owned
  cases hpc : s.exit <;> first | rfl | (rw [hpc] at h; contradiction)

theorem inv_work {s t : State} (h : workqueueFn s = some t) (hs : Inv s) : Inv t := by
  have hout : s.exit.emptying = false := by
    by_contra hempty
    obtain ⟨hpending,hidle⟩ := hs.work (by simpa using hempty)
    simp [workqueueFn, hpending, hidle] at h
  have hnot : s.exit.emptied = false := by
    by_contra hempty
    rw [ExitPc.emptying_of_emptied (by simpa using hempty)] at hout
    contradiction
  obtain ⟨hsched,hran,hfreed,htasklet,-,howned⟩ := hs
  rw [owned_of_not_emptying hout] at howned
  have keep : ∀ {u : State}, u.exit = s.exit → u.freedScheduled = s.freedScheduled → u.tasklet = s.tasklet →
      u.handler = s.handler → u.ranEmptied = false →
      u.allocated = u.headNode.map MyList.addr ++ u.work.unlinked → Inv u := by
    intro u hexit hfs hk hh hr hu
    refine ⟨hfs.trans hsched,hr,by rw [hk,hexit]; exact hfreed,by rw [hk,hh]; exact htasklet,?_,?_⟩
    · rw [hexit,hout]; nofun
    · rwa [owned_of_not_emptying (by rw [hexit,hout])]
  unfold workqueueFn at h
  cases hw : s.work with
  | idle =>
    simp only [hw, Option.ite_none_right_eq_some, Option.some.injEq] at h
    obtain ⟨-,rfl⟩ := h
    exact keep rfl rfl rfl rfl hran (by simpa [hw, WorkPc.unlinked] using howned)
  | kmalloc =>
    simp only [hw, Option.some.injEq] at h
    subst h
    exact keep rfl rfl rfl rfl hran (by simpa [hw, WorkPc.unlinked] using howned)
  | listAddTail n =>
    simp only [hw, Option.some.injEq] at h
    subst h
    exact keep rfl rfl rfl rfl (by simp [hran, hnot]) (by simpa [hw, WorkPc.unlinked] using howned)
  | traverse temp count =>
    simp only [hw, Option.some.injEq] at h
    subst h
    refine keep rfl rfl rfl rfl (by simp [hran, hnot]) ?_
    cases temp <;> simpa [hw, WorkPc.unlinked] using howned

theorem inv_tasklet {s t : State} (h : taskletFn s = some t) (hs : Inv s) : Inv t := by
  obtain ⟨hsched,hran,hfreed,htasklet,hwork,howned⟩ := hs
  have hbusy : s.tasklet.idle = true → False := by
    intro hidle
    simp only [Tasklet.idle, Bool.and_eq_true, Bool.not_eq_true'] at hidle
    simp [taskletFn, hidle] at h
  unfold taskletFn at h
  split_ifs at h <;> cases h <;>
    exact ⟨hsched,hran,hfreed,fun hf => (hbusy (htasklet hf).2).elim,hwork,howned⟩

theorem inv_step {s t : State} {a : Act} (h : step s a = some t) (hC : Quiet s a) (hs : Inv s) : Inv t := by
  cases a with
  | exit => exact inv_exit h hC hs
  | irq => exact inv_irq h hC hs
  | handler => exact inv_handler h hs
  | work => exact inv_work h hs
  | tasklet => exact inv_tasklet h hs
  | store v =>
    cases h
    exact ⟨hs.freedScheduled,hs.ranEmptied,hs.freed,hs.tasklet,hs.work,hs.owned⟩

/-- In a run that is quiet at each step the unloading is safe. -/
theorem teardown_safe_of_quiet {acts : List Act} {s : State} (hC : Meets step Quiet loaded acts)
    (h : run step loaded acts = some s) : Safe s :=
  safe_of_inv (run_invariant_of_meets (fun _ _ _ => inv_step) hC h inv_loaded)

def quiet (s : State) : Act → Bool
  | .irq => !s.tasklet.freed
  | .exit => (s.exit ≠ .kfreeTasklet || !s.handler.schedules && s.tasklet.idle) &&
      (s.exit ≠ .listFirst || !s.pending && s.work = .idle)
  | _ => true

theorem quiet_iff (s : State) (a : Act) : quiet s a = true ↔ Quiet s a := by
  cases a <;> simp [quiet, Quiet, imp_iff_not_or]

/-- The second interrupt comes while `globalmem_exit` waits in `tasklet_kill`; its work ends before
the list is emptied. -/
theorem teardown_safe_of_quiet_two_irqs : ∃ acts s, run step loaded acts = some s ∧
    s.exit = .returned ∧ s.nextAddr = 2 ∧ Safe s := by
  let acts : List Act := [.irq,.handler,.handler,.handler,.work,.tasklet,.work,.tasklet,.work,.work,.work,
    .store 7,.exit,.exit,.irq,.handler,.handler,.handler,.work,.work,.tasklet,.tasklet,.exit,.exit,.work,
    .work,.work,.work,.exit,.exit,.exit,.exit,.exit,.exit,.exit,.exit,.exit,.exit,.exit,.exit]
  obtain ⟨s,hs,hp⟩ := exists_of_run_any step loaded acts (fun s => s.exit = .returned ∧ s.nextAddr = 2)
    (by decide)
  simp only [decide_eq_true_eq] at hp
  have hC : Meets step Quiet loaded acts := meets_of_check quiet (fun s a => (quiet_iff s a).mp) (by decide)
  exact ⟨acts,s,hs,hp.1,hp.2,teardown_safe_of_quiet hC hs⟩

/-- An interrupt between `kfree(tasklet)` and `free_irq` schedules the freed tasklet. -/
theorem handler_schedules_freed : ¬ ∀ acts s, run step loaded acts = some s → Safe s := by
  intro h
  obtain ⟨s,hs,hp⟩ := exists_of_run_any step loaded [.exit,.exit,.exit,.exit,.irq,.handler,.handler]
    (fun s => s.freedScheduled) (by decide)
  rw [(h _ s hs).tasklet] at hp
  contradiction

/-- The steps of `globalmem_exit` alone lead from `s` to `t` and leave the bottom halves as they are. -/
structure Drains (s t : State) : Prop where
  reached : ∃ acts, run step s acts = some t
  handler : t.handler = s.handler
  tasklet : t.tasklet = s.tasklet
  work : t.pending = s.pending ∧ t.work = s.work

theorem Drains.trans {s t u : State} (h : Drains s t) (h' : Drains t u) : Drains s u := by
  obtain ⟨⟨as,has⟩,hh,hk,hp,hw⟩ := h
  obtain ⟨⟨bs,hbs⟩,hh',hk',hp',hw'⟩ := h'
  exact ⟨⟨as ++ bs,run_append_eq_some.mpr ⟨t,has,hbs⟩⟩,hh'.trans hh,hk'.trans hk,hp'.trans hp,hw'.trans hw⟩

theorem exit_frame {s t : State} (h : globalmemExit s = some t) (hpc : s.exit ≠ .kfreeTasklet) :
    t.handler = s.handler ∧ t.tasklet = s.tasklet ∧ t.pending = s.pending ∧ t.work = s.work := by
  unfold globalmemExit at h
  cases hs : s.exit with
  | kfreeTasklet => contradiction
  | returned => simp [hs] at h
  | taskletKill | freeIrq =>
    simp only [hs, Option.ite_none_right_eq_some, Option.some.injEq] at h
    obtain ⟨-,rfl⟩ := h
    exact ⟨rfl,rfl,rfl,rfl⟩
  | listDel | kfreeCursor =>
    simp only [hs, Option.map_eq_some_iff] at h
    obtain ⟨c,-,rfl⟩ := h
    exact ⟨rfl,rfl,rfl,rfl⟩
  | _ =>
    simp only [hs, Option.some.injEq] at h
    subst h
    exact ⟨rfl,rfl,rfl,rfl⟩

theorem Drains.exit {s t : State} (h : globalmemExit s = some t) (hpc : s.exit ≠ .kfreeTasklet) :
    Drains s t := by
  obtain ⟨hh,hk,hw⟩ := exit_frame h hpc
  exact ⟨⟨[.exit],run_cons_eq_some.mpr ⟨t,h,rfl⟩⟩,hh,hk,hw⟩

theorem drains_list {ns : List MyList} {s : State} (hhead : s.headNode = ns) (hpc : s.exit = .listTest)
    (hcursor : s.cursor = firstEntry ns) (htemp : s.temp = firstEntry ns.tail) :
    ∃ t, Drains s t ∧ t.exit = .freeIrq := by
  induction ns generalizing s with
  | nil =>
    have htest : globalmemExit s = some {s with exit := .freeIrq} := by
      rw [globalmemExit,hpc]
      simp [hcursor, firstEntry]
    exact ⟨_,.exit htest (by rw [hpc]; nofun),rfl⟩
  | cons n ns ih =>
    have hc : s.cursor = some n.addr := hcursor
    have htest : globalmemExit s = some {s with exit := .listDel} := by
      rw [globalmemExit,hpc]
      simp [hc]
    have hdel : globalmemExit {s with exit := .listDel} =
        some {s with headNode := ns, exit := .kfreeCursor} := by
      simp [globalmemExit, hc, hhead]
    have hfree : globalmemExit {s with headNode := ns, exit := .kfreeCursor} = some {s with
        headNode := ns
        allocated := s.allocated.erase n.addr
        cursor := firstEntry ns
        temp := firstEntry ns.tail
        exit := .listTest} := by
      simp [globalmemExit, hc, htemp, next_firstEntry]
    obtain ⟨t,ht,hexit⟩ := ih (s := {s with
        headNode := ns
        allocated := s.allocated.erase n.addr
        cursor := firstEntry ns
        temp := firstEntry ns.tail
        exit := .listTest}) rfl rfl rfl rfl
    refine ⟨t,(Drains.exit htest ?_).trans ((Drains.exit hdel nofun).trans ((Drains.exit hfree nofun).trans ht)),hexit⟩
    rw [hpc]
    nofun

/-- From the beginning of the emptying, its end can be reached. -/
theorem drains_listFirst {s t : State} (hpc : s.exit = .listFirst) (h : globalmemExit s = some t) :
    ∃ u, Drains t u ∧ u.exit = .freeIrq := by
  simp only [globalmemExit, hpc, Option.some.injEq] at h
  subst h
  exact drains_list (s := {s with
    cursor := firstEntry s.headNode
    temp := (firstEntry s.headNode).bind fun c => nextEntry c s.headNode
    exit := .listTest}) rfl rfl rfl (next_firstEntry s.headNode)

/-- A work item that is still to run when the emptying is over runs on the emptied list. -/
theorem work_after_emptied {s : State} (hpc : s.exit = .freeIrq) (h : s.pending = true ∨ s.work ≠ .idle) :
    ∃ acts t, run step s acts = some t ∧ t.ranEmptied = true := by
  cases hw : s.work with
  | idle =>
    obtain hp | hw' := h
    · exact ⟨[.work,.work,.work],_,by simp [run, step, workqueueFn, hw, hp]; rfl,by simp [hpc, ExitPc.emptied]⟩
    · contradiction
  | kmalloc =>
    exact ⟨[.work,.work],_,by simp [run, step, workqueueFn, hw]; rfl,by simp [hpc, ExitPc.emptied]⟩
  | listAddTail n =>
    exact ⟨[.work],_,by simp [run, step, workqueueFn, hw]; rfl,by simp [hpc, ExitPc.emptied]⟩
  | traverse temp count =>
    exact ⟨[.work],_,by simp [run, step, workqueueFn, hw]; rfl,by simp [hpc, ExitPc.emptied]⟩

/-- A handler that has `tasklet_schedule` before it schedules the freed tasklet. -/
theorem handler_after_freed {s : State} (hf : s.tasklet.freed = true) (h : s.handler.schedules = true) :
    ∃ acts t, run step s acts = some t ∧ t.freedScheduled = true := by
  cases hh : s.handler with
  | scheduleWork => exact ⟨[.handler,.handler],_,by simp [run, step, irqHandler, hh]; rfl,by simp [hf]⟩
  | taskletSchedule => exact ⟨[.handler],_,by simp [run, step, irqHandler, hh]; rfl,by simp [hf]⟩
  | idle | sendSig => rw [hh] at h; contradiction

/-- A tasklet that is not idle when it is freed is still there when `globalmem_exit` returns, if it
gets no time to run. -/
theorem tasklet_left {s : State} (hpc : s.exit = .kthreadStop) (hh : s.handler.schedules = false)
    (hk : s.tasklet.idle = false) :
    ∃ acts t, run step s acts = some t ∧ t.exit = .returned ∧ t.tasklet.idle = false := by
  -- the handler may have its signal to send, which `free_irq` waits for
  obtain ⟨acts,t,ht,hpct,hidle,hkt⟩ : ∃ acts t, run step s acts = some t ∧ t.exit = .kthreadStop ∧
      t.handler = .idle ∧ t.tasklet = s.tasklet := by
    cases hs : s.handler with
    | idle => exact ⟨[],s,rfl,hpc,hs,rfl⟩
    | sendSig => exact ⟨[.handler],{s with handler := .idle},by simp [run, step, irqHandler, hs],hpc,rfl,rfl⟩
    | scheduleWork | taskletSchedule => rw [hs] at hh; contradiction
  have hstop : Drains t {t with exit := .kthreadStop2} :=
    Drains.exit (by rw [globalmemExit,hpct]) (by simp [hpct])
  have hstop2 : Drains {t with exit := .kthreadStop2} {t with exit := .listFirst} := Drains.exit rfl (by simp)
  have hfirst : globalmemExit {t with exit := .listFirst} = some {t with
      cursor := firstEntry t.headNode
      temp := (firstEntry t.headNode).bind fun c => nextEntry c t.headNode
      exit := .listTest} := rfl
  obtain ⟨u,hu,hpcu⟩ := drains_listFirst rfl hfirst
  have hidleu : u.handler = .idle := hu.handler.trans hidle
  have hirq : Drains u {u with irqFreed := true, exit := .remove} :=
    Drains.exit (by rw [globalmemExit,hpcu]; exact if_pos hidleu) (by simp [hpcu])
  have hret : Drains {u with irqFreed := true, exit := .remove} {u with irqFreed := true, exit := .returned} :=
    Drains.exit rfl (by simp)
  have hall := ((hstop.trans hstop2).trans (Drains.exit hfirst (by simp))).trans ((hu.trans hirq).trans hret)
  obtain ⟨bs,hbs⟩ := hall.reached
  refine ⟨acts ++ bs,_,run_append_eq_some.mpr ⟨t,ht,hbs⟩,rfl,?_⟩
  rw [hall.tasklet,hkt,hk]

/-- A step that is not quiet can be continued to a state that is not safe. -/
theorem unsafe_of_not_quiet {s t : State} {a : Act} (h : step s a = some t) (hC : ¬ Quiet s a) :
    ∃ acts u, run step t acts = some u ∧ ¬ Safe u := by
  have hsched : t.tasklet.freed = true → t.handler.schedules = true →
      ∃ acts u, run step t acts = some u ∧ ¬ Safe u := by
    intro hf hh
    obtain ⟨acts,u,hu,hbad⟩ := handler_after_freed hf hh
    exact ⟨acts,u,hu,fun hsafe => by rw [hsafe.tasklet] at hbad; contradiction⟩
  cases a with
  | irq =>
    simp only [step, Option.ite_none_right_eq_some, Option.some.injEq] at h
    obtain ⟨-,rfl⟩ := h
    exact hsched (by simpa [Quiet] using hC) rfl
  | exit =>
    by_cases hkfree : s.exit = .kfreeTasklet
    · simp only [step, globalmemExit, hkfree, Option.some.injEq] at h
      subst h
      cases hh : s.handler.schedules with
      | true => exact hsched rfl hh
      | false =>
        have hk : s.tasklet.idle = false := by simpa [Quiet, hkfree, hh] using hC
        obtain ⟨acts,u,hu,hret,hleft⟩ := tasklet_left (s := {s with
          tasklet := {s.tasklet with freed := true}, exit := .kthreadStop}) rfl hh hk
        exact ⟨acts,u,hu,fun hsafe => by rw [(hsafe.returned hret).2.2] at hleft; contradiction⟩
    · obtain ⟨hfirst,hbusy⟩ : s.exit = .listFirst ∧ ¬ (s.pending = false ∧ s.work = .idle) := by
        simpa [Quiet, hkfree] using hC
      obtain ⟨-,-,hp,hw⟩ := exit_frame h hkfree
      obtain ⟨u,hu,hpcu⟩ := drains_listFirst hfirst h
      obtain ⟨acts,hacts⟩ := hu.reached
      have hbusyu : u.pending = true ∨ u.work ≠ .idle := by
        rw [hu.work.1,hu.work.2,hp,hw]
        by_contra hnot
        exact hbusy (by simpa using hnot)
      obtain ⟨bs,v,hbs,hran⟩ := work_after_emptied hpcu hbusyu
      refine ⟨acts ++ bs,v,run_append_eq_some.mpr ⟨u,hacts,hbs⟩,fun hsafe => ?_⟩
      rw [hsafe.list] at hran
      contradiction
  | handler | work | tasklet | store v => exact (hC trivial).elim

end ExampleKernel.GlobalMem.Teardown
