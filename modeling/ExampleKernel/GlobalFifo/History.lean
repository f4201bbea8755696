import ExampleKernel.Foundation.Linearization
import ExampleKernel.GlobalFifo.Refinement

/-! The calls of globalfifo in real time. Every file operation takes effect at one of its statements,
and in the order of these the answers are those of a bounded queue that one process uses alone. -/
namespace ExampleKernel.GlobalFifo
open ExampleKernel.Foundation ExampleKernel.Kernel

/-- What a file operation did to the queue, or found out about it. `empty` and `full` are the answers
`-EAGAIN`, and `skip` stands for the other failures. -/
inductive QueueOp
  | read (n : ℕ) (bytes : List UInt8)
  | write (n : ℕ) (buf : ℕ → UInt8) (count : ℕ)
  | clear
  | empty
  | full
  | poll (mask : Events)
  | skip

/-- A bounded queue in the hands of one process. Reads and writes are as long as they can be. -/
def queueStep (q : List UInt8) : QueueOp → Option (List UInt8)
  | .read n bytes => if q ≠ [] ∧ bytes = q.take n then some (q.drop n) else none
  | .write n buf count =>
    if q.length < capacity ∧ count = min n (capacity-q.length) then some (q ++ slice buf 0 count) else none
  | .clear => some []
  | .empty => if q = [] then some q else none
  | .full => if q.length = capacity then some q else none
  | .poll mask => if mask = ⟨q ≠ [],q.length ≠ capacity⟩ then some q else none
  | .skip => some q

/-- The transfer that an operation completes. -/
def QueueOp.transfer : QueueOp → Option Transfer
  | .read _ bytes => some (.get bytes)
  | .write _ buf count => some (.put (slice buf 0 count))
  | .clear => some .clear
  | _ => none

/-- Whether the file operation at a program point is still to take effect. The poll core is outside of
`globalfifo_poll`. -/
def Pc.phase (id : ℕ) : Pc → Foundation.Phase
  | .lock | .addWait | .test | .sleep | .unlock | .schedule | .asleep | .resume | .relock | .clamp | .copy
  | .shift | .account | .ioctlSwitch | .ioctlLock | .ioctlClear | .pollLock | .pollWaitR | .pollWaitW
  | .pollTestR | .pollTestW => .pending id
  | .wake | .sigio | .out | .removeWait | .setRunning | .ret | .ioctlMemset | .ioctlUnlock | .pollUnlock
  | .pollRet => .past id
  | _ => .idle

/-- What a statement from `t` to `t'` at which the operation takes effect has done. -/
def Task.op (t t' : Task) : QueueOp :=
  match t.call, t.pc with
  | .read _ n, .account => .read n.toNat t.ubuf
  | .write _ n buf, .account => .write n.toNat buf t.count.toNat
  | .read _ _, .test => .empty
  | .write _ _ _, .test => .full
  | .ioctl _, .ioctlClear => .clear
  | .poll _, .pollTestW => .poll t'.mask
  | _, _ => .skip

/-- The system with the book of its file operations; `id` is the time at which a process began its
latest one. -/
structure Machine where
  sys : Sys
  id : Pid → ℕ
  book : Book QueueOp

/-- Enter a statement from `t` to `t'` in the book. -/
def record (b : Book QueueOp) (id : ℕ) (t t' : Task) : Book QueueOp :=
  match t.pc.phase id, t'.pc.phase id with
  | .pending _, .past _ => b.log id (t.op t')
  | .past _, .idle => b.finish id
  | _, _ => b.tick

/-- Process `p` begins a file operation, by a call or in the next round of the poll core. -/
def Machine.begin (m : Machine) (p : Pid) (s : Sys) : Machine :=
  ⟨s,Function.update m.id p m.book.clock,m.book.tick⟩

def Machine.step (m : Machine) (a : Act) : Option Machine :=
  (GlobalFifo.step m.sys a).map fun s =>
    match a with
    | .call p _ => m.begin p s
    | .run p _ =>
      if (m.sys.task p).pc = .selAgain then m.begin p s
      else ⟨s,m.id,record m.book (m.id p) (m.sys.task p) (s.task p)⟩
    | _ => ⟨s,m.id,m.book.tick⟩

def Machine.load : Machine := ⟨GlobalFifo.load,fun _ => 0,.empty⟩

/-- What the holder of the mutex has found out about the length, since no other task changes it. -/
def Task.certain (len : UInt32) (t : Task) : Prop :=
  match t.call, t.pc with
  | .read _ _, .clamp | .read _ _, .copy => len ≠ 0
  | .read _ _, .shift | .read _ _, .account => len.toNat = t.seen ∧ len ≠ 0
  | .poll _, .pollTestW => t.mask.pollin = decide (len ≠ 0)
  | _, _ => True

theorem certain_of_not_holds {t : Task} (h : t.pc.holds = false) (len : UInt32) : t.certain len := by
  unfold Task.certain
  cases t.call <;> cases hpc : t.pc <;> first | trivial | exact absurd h (by rw [hpc]; decide)

theorem Nudge.certain {t t' : Task} (h : Nudge t t') {len : UInt32} (hc : t.certain len) : t'.certain len := by
  unfold Task.certain at *
  rwa [h.call,h.pc,h.mask,h.seen]

section Statements
variable {dev : GlobalfifoDev} {t t' : Task} {c : Choice} {e : Effect} {log : List Transfer}

theorem read_certain {nonblock : Bool} {n : UInt64} (hcall : t.call = .read nonblock n)
    (hc : t.certain dev.currentLen) (h : ReadMove nonblock dev t c t' e) :
    t'.certain (e.lenAfter dev.currentLen) := by
  cases h <;> rename_i hpc <;> simp only [Task.certain, hcall, hpc] at hc
  all_goals simp_all [Task.certain, Effect.lenAfter]

theorem poll_certain {events : Events} (hcall : t.call = .poll events) (h : PollMove events dev t c t' e) :
    t'.certain (e.lenAfter dev.currentLen) := by
  cases h
  case testR => simp only [Task.certain, hcall]; rfl
  all_goals simp [Task.certain, hcall]

theorem statement_certain (hc : t.certain dev.currentLen) (h : statement dev t c = some (t',e)) :
    t'.certain (e.lenAfter dev.currentLen) := by
  have hd := statement_disciplined h
  obtain ⟨_,_,hcall,h⟩ | ⟨_,_,_,hcall,-⟩ | ⟨_,hcall,-⟩ | ⟨_,hcall,h⟩ := statement_move h
  · exact read_certain hcall hc h
  · simp [Task.certain, hd.call, hcall]
  · simp [Task.certain, hd.call, hcall]
  · exact poll_certain hcall h

/-- The queue that the transfers so far leave. -/
def Replays (log : List Transfer) (q : List UInt8) : Prop := run (BoundedQueue.step capacity) [] log = some q

theorem Balanced.agree {len : UInt32} {mem : ℕ → UInt8} {q : List UInt8} (h : Balanced len mem log)
    (hq : Replays log q) : q = slice mem 0 len.toNat :=
  Option.some.inj (hq.symm.trans h.replay)

/-- The statement at which an operation takes effect completes its transfer, and the sequential queue
accepts the operation; no other statement completes one. -/
def Takes (id : ℕ) (log : List Transfer) (q : List UInt8) (t t' : Task) (e : Effect) : Prop :=
  match t.pc.phase id, t'.pc.phase id with
  | .pending _, .past _ => e.logAfter log = log ++ (t.op t').transfer.toList ∧
      ∃ r, queueStep q (t.op t') = some r ∧ Replays (e.logAfter log) r
  | _, _ => e.logAfter log = log

/-- What is taken from the front as far as it goes, and the rest. -/
theorem take_of_length {α : Type*} {xs rest : List α} {n : ℕ} (h : xs.length = min n (xs ++ rest).length) :
    (xs ++ rest).take n = xs ∧ (xs ++ rest).drop n = rest := by
  rw [List.length_append] at h
  by_cases hn : n ≤ xs.length+rest.length
  · have hlen : xs.length = n := by omega
    exact ⟨List.take_left' hlen,List.drop_left' hlen⟩
  · have hnil : rest = [] := List.length_eq_zero_iff.mp (by omega)
    subst hnil
    rw [List.append_nil]
    exact ⟨List.take_of_length_le (by omega),List.drop_of_length_le (by omega)⟩

variable {id : ℕ} {q : List UInt8}
attribute [local simp] Takes Pc.phase Task.op queueStep QueueOp.transfer Effect.logAfter

theorem read_takes {nonblock : Bool} {n : UInt64} (hcall : t.call = .read nonblock n)
    (hA : t.pc.holds = true → t.holding dev.currentLen dev.mem log) (hF : t.framed)
    (hc : t.certain dev.currentLen) (hq : Replays log q)
    (h : ReadMove nonblock dev t c t' e) : Takes id log q t t' e := by
  cases h <;> rename_i hpc <;> simp only [Task.certain, hcall, hpc] at hc <;>
    simp only [Task.framed, Task.progress, hcall, hpc] at hF <;>
    simp only [Task.holding, hcall, hpc, Pc.holds, true_implies] at hA
  case account =>
    obtain ⟨-,hle,hubuf,hrun⟩ := hA
    have hR : q = t.ubuf ++ slice dev.mem 0 (dev.currentLen.toNat-t.count.toNat) :=
      Option.some.inj (hq.symm.trans hrun)
    have hlen : q.length = dev.currentLen.toNat := by
      rw [hR,List.length_append,slice_length,hubuf,Nat.add_sub_cancel' hle]
    have hne : q ≠ [] := by
      intro hnil
      rw [hnil,List.length_nil] at hlen
      exact hc.2 (UInt32.toNat_inj.mp hlen.symm)
    obtain ⟨htake,hdrop⟩ := take_of_length (n := n.toNat)
      (show t.ubuf.length = min n.toNat (t.ubuf ++ slice dev.mem 0 (dev.currentLen.toNat-t.count.toNat)).length by
        rw [← hR,hlen,hubuf,hF.1,hc.1])
    rw [← hR] at htake hdrop
    have hget : BoundedQueue.step capacity q (.get t.ubuf) = some (q.drop t.ubuf.length) := by
      simp [BoundedQueue.step, hR]
    have hrest : q.drop t.ubuf.length = q.drop n.toNat := by rw [hdrop,hR,List.drop_left]
    simp only [Takes, Task.goto, hpc, Pc.phase, Task.op, hcall, queueStep, htake, hne, ne_eq, not_false_eq_true,
      and_self, if_true, Effect.logAfter]
    exact ⟨rfl,_,rfl,run_concat_eq_some.mpr ⟨q,hq,hget.trans (congrArg some hrest)⟩⟩
  case again hzero _ =>
    have hnil : q = [] := by rw [hA.agree hq,hzero]; rfl
    simp [hcall, hpc, hnil, hnil ▸ hq]
  all_goals simp [hcall, hpc, hq]

theorem write_takes {nonblock : Bool} {n : UInt64} {buf : ℕ → UInt8} (hcall : t.call = .write nonblock n buf)
    (hA : t.pc.holds = true → t.holding dev.currentLen dev.mem log) (hF : t.framed)
    (hu : t.undisturbed dev.currentLen) (hq : Replays log q)
    (h : WriteMove nonblock buf dev t c t' e) : Takes id log q t t' e := by
  cases h <;> rename_i hpc <;> simp only [Task.undisturbed, hcall, hpc] at hu <;>
    simp only [Task.framed, Task.progress, hcall, hpc] at hF <;>
    simp only [Task.holding, hcall, hpc, Pc.holds, true_implies] at hA
  case account =>
    obtain ⟨hbal,hfit,-⟩ := hA
    have hlen : q.length = dev.currentLen.toNat := by rw [hbal.agree hq,slice_length]
    have hcount : t.count.toNat = min n.toNat (capacity-q.length) := by rw [hF.1,hlen,hu.1]
    have hroom : q.length < capacity := by
      have hne : dev.currentLen.toNat ≠ capacity := fun heq => hu.2 (UInt32.toNat_inj.mp heq)
      have hbound := hbal.bound
      omega
    have hput : BoundedQueue.step capacity q (.put (slice buf 0 t.count.toNat)) =
        some (q ++ slice buf 0 t.count.toNat) := by
      rw [BoundedQueue.step,if_pos (by rw [slice_length,hlen]; exact hfit)]
    simp only [Takes, Task.goto, hpc, Pc.phase, Task.op, hcall, queueStep, Effect.logAfter,
      if_pos (And.intro hroom hcount)]
    exact ⟨rfl,_,rfl,run_concat_eq_some.mpr ⟨q,hq,hput⟩⟩
  case again hlimit _ =>
    have hfull : q.length = capacity := by rw [hA.agree hq,slice_length,hlimit]; rfl
    simp [hcall, hpc, hfull, hq]
  all_goals simp [hcall, hpc, hq]

theorem ioctl_takes {cmd : UInt32} (hcall : t.call = .ioctl cmd) (hq : Replays log q)
    (h : IoctlMove cmd dev t t' e) : Takes id log q t t' e := by
  cases h <;> rename_i hpc
  case clear =>
    simp only [Takes, Task.goto, hpc, Pc.phase, Task.op, hcall, queueStep, Effect.logAfter]
    exact ⟨rfl,[],rfl,run_concat_eq_some.mpr ⟨q,hq,rfl⟩⟩
  all_goals simp [hcall, hpc, hq]

theorem poll_takes {events : Events} (hcall : t.call = .poll events)
    (hA : t.pc.holds = true → t.holding dev.currentLen dev.mem log) (hc : t.certain dev.currentLen)
    (hq : Replays log q) (h : PollMove events dev t c t' e) : Takes id log q t t' e := by
  cases h <;> rename_i hpc <;> simp only [Task.certain, hcall, hpc] at hc <;>
    simp only [Task.holding, hcall, hpc, Pc.holds, true_implies] at hA
  case testW =>
    have hlen : q.length = dev.currentLen.toNat := by rw [hA.agree hq,slice_length]
    have hempty : q ≠ [] ↔ dev.currentLen ≠ 0 := by
      rw [ne_eq,← List.length_eq_zero_iff,hlen]
      exact (UInt32.toNat_inj (b := 0)).not
    have hfull : q.length ≠ capacity ↔ dev.currentLen ≠ globalfifoSize := by
      rw [hlen]
      exact (UInt32.toNat_inj (b := globalfifoSize)).not
    simp only [Takes, hpc, Pc.phase, Task.op, hcall, queueStep, Effect.logAfter, hc, hempty, hfull, if_true]
    exact ⟨(List.append_nil _).symm,q,rfl,hq⟩
  all_goals simp [hpc]

theorem statement_takes (hA : t.pc.holds = true → t.holding dev.currentLen dev.mem log) (hF : t.framed)
    (hu : t.undisturbed dev.currentLen) (hc : t.certain dev.currentLen) (hq : Replays log q)
    (h : statement dev t c = some (t',e)) : Takes id log q t t' e := by
  obtain ⟨_,_,hcall,h⟩ | ⟨_,_,_,hcall,h⟩ | ⟨_,hcall,h⟩ | ⟨_,hcall,h⟩ := statement_move h
  · exact read_takes hcall hA hF hc hq h
  · exact write_takes hcall hA hF hu hq h
  · exact ioctl_takes hcall hq h
  · exact poll_takes hcall hA hc hq h

end Statements

/-- The answer that an operation gives its caller. -/
def Task.answer (t : Task) : QueueOp :=
  match t.call with
  | .read _ n => if 0 ≤ t.ret then .read n.toNat t.ubuf else if t.ret = -eagain then .empty else .skip
  | .write _ n buf =>
    if 0 ≤ t.ret then .write n.toNat buf t.ret.toNat else if t.ret = -eagain then .full else .skip
  | .ioctl _ => if t.ret = 0 then .clear else .skip
  | .poll _ => .poll t.mask

/-- The answer of an operation that has taken effect, from the locals where it is not yet in `ret`. -/
def Task.outcome (t : Task) : QueueOp :=
  match t.call, t.pc with
  | .read _ n, .wake => .read n.toNat t.ubuf
  | .write _ n buf, .wake | .write _ n buf, .sigio => .write n.toNat buf t.count.toNat
  | .ioctl _, .ioctlMemset | .ioctl _, .ioctlUnlock => .clear
  | _, _ => t.answer

theorem Nudge.outcome {t t' : Task} (h : Nudge t t') : t'.outcome = t.outcome := by
  unfold Task.outcome Task.answer
  rw [h.call,h.pc,h.ret,h.mask,h.ubuf,h.count]

section Statements
variable {dev : GlobalfifoDev} {t t' : Task} {c : Choice} {e : Effect} (id : ℕ)

/-- The answer is settled by the statement at which the operation takes effect. -/
structure Settles (t t' : Task) : Prop where
  takes : t.pc.phase id = .pending id → t'.pc.phase id = .past id → t'.outcome = t.op t'
  keeps : t.pc.phase id = .past id → t'.pc.phase id = .past id → t'.outcome = t.outcome

attribute [local simp] Pc.phase Task.op Task.outcome Task.answer eagain efault einval erestartsys

theorem read_settles {nonblock : Bool} {n : UInt64} (hcall : t.call = .read nonblock n) (hF : t.framed)
    (h : ReadMove nonblock dev t c t' e) : Settles id t t' := by
  cases h <;> rename_i hpc <;> simp only [Task.framed, Task.progress, hcall, hpc] at hF
  case wake =>
    have hret : 0 ≤ intOf t.count.toNat := by
      rw [intOf_count hF.1 (by omega)]
      exact Int.natCast_nonneg _
    constructor <;> simp [hcall, hpc, hret]
  case out | removeWait =>
    exact ⟨by simp [hpc],fun _ _ => by simp only [Task.outcome, Task.answer, Task.goto, hcall, hpc]⟩
  all_goals constructor <;> simp [hcall, hpc]

theorem write_settles {nonblock : Bool} {n : UInt64} {buf : ℕ → UInt8} (hcall : t.call = .write nonblock n buf)
    (hF : t.framed) (h : WriteMove nonblock buf dev t c t' e) : Settles id t t' := by
  cases h <;> rename_i hpc <;> simp only [Task.framed, Task.progress, hcall, hpc] at hF
  case unwatched | sigio =>
    have hret : intOf t.count.toNat = t.count.toNat := intOf_count rfl (by omega)
    constructor <;> simp [hcall, hpc, hret]
  case out | removeWait =>
    exact ⟨by simp [hpc],fun _ _ => by simp only [Task.outcome, Task.answer, Task.goto, hcall, hpc]⟩
  all_goals constructor <;> simp [hcall, hpc]

theorem ioctl_settles {cmd : UInt32} (hcall : t.call = .ioctl cmd) (h : IoctlMove cmd dev t t' e) :
    Settles id t t' := by
  cases h <;> rename_i hpc <;> constructor <;> simp [hcall, hpc]

theorem poll_settles {events : Events} (hcall : t.call = .poll events) (h : PollMove events dev t c t' e) :
    Settles id t t' := by
  cases h <;> rename_i hpc <;> constructor <;> simp [hcall, hpc]

theorem statement_settles (hF : t.framed) (h : statement dev t c = some (t',e)) : Settles id t t' := by
  obtain ⟨_,_,hcall,h⟩ | ⟨_,_,_,hcall,h⟩ | ⟨_,hcall,h⟩ | ⟨_,hcall,h⟩ := statement_move h
  · exact read_settles id hcall hF h
  · exact write_settles id hcall hF h
  · exact ioctl_settles id hcall h
  · exact poll_settles id hcall h

/-- An operation goes on, takes effect or returns; only `selAgain` leads into a new one. -/
def Advances (t t' : Task) : Prop :=
  match t.pc.phase id with
  | .pending _ => t'.pc.phase id = .pending id ∨ t'.pc.phase id = .past id
  | .past _ => t'.pc.phase id = .past id ∨ t'.pc.phase id = .idle
  | .idle => if t.pc = .selAgain then t'.pc.phase id = .pending id else t'.pc.phase id = .idle

theorem statement_goes_on (h : statement dev t c = some (t',e)) : Advances id t t' := by
  obtain ⟨_,_,-,h⟩ | ⟨_,_,_,-,h⟩ | ⟨_,-,h⟩ | ⟨_,-,h⟩ := statement_move h
  all_goals cases h <;> rename_i hpc <;> simp [Advances, hpc]

end Statements

section Runs
variable {m m' : Machine} {a : Act} {p : Pid}

theorem certain_step {s s' : Sys} (h : step s a = some s') (hl : LockInv s)
    (hc : ∀ p, (s.task p).certain s.dev.currentLen) (p : Pid) : (s'.task p).certain s'.dev.currentLen := by
  refine knows_step (P := fun len _ t => t.certain len) (fun hn => hn.certain) ?_ h hl ?_ ?_ (hc p)
  · intro _ _ _ len' _ hh _
    exact certain_of_not_holds hh len'
  · intro c _
    exact certain_of_not_holds (enter_idle _ c).1 _
  · intro c t e _ hst
    exact statement_certain (hc p) hst

/-- The transfers of the operations in the book. -/
def transfers (b : Book QueueOp) : List Transfer := b.entries.filterMap fun e => e.op.transfer

theorem transfers_log (b : Book QueueOp) (id : ℕ) (op : QueueOp) :
    transfers (b.log id op) = transfers b ++ op.transfer.toList := by
  simp only [transfers, Book.log, Book.tick, List.filterMap_append]
  cases op <;> rfl

/-- The invariant of the book: it fits the processes, its transfers are those of the device, the
sequential queue accepts it and ends with the bytes that the device has, and every operation that took
effect is in it with its answer. -/
structure Machine.Sound (m : Machine) : Prop where
  inv : Inv m.sys
  certain : ∀ p, (m.sys.task p).certain m.sys.dev.currentLen
  book : m.book.Kept fun p => (m.sys.task p).pc.phase (m.id p)
  log : m.sys.log = transfers m.book
  agree : ∃ q, run queueStep [] (m.book.entries.map Entry.op) = some q ∧ Replays m.sys.log q
  told : ∀ p, (m.sys.task p).pc.phase (m.id p) = .past (m.id p) →
    ∃ e ∈ m.book.entries, e.invoked = m.id p ∧ e.op = (m.sys.task p).outcome

theorem sound_load : Machine.load.Sound where
  inv := inv_load
  certain _ := trivial
  book := .empty
  log := rfl
  agree := ⟨[],rfl,rfl⟩
  told := by simp [Machine.load, load, Task.rest, Pc.phase]

/-- What a step does to the tasks other than `p`. -/
def Spares (p : Pid) (s s' : Sys) : Prop := ∀ r, r ≠ p → Nudge (s.task r) (s'.task r)

/-- The phases after a step that concerns one process. -/
theorem phases_update {s : Sys} (h : Spares p m.sys s) (id : Pid → ℕ) (hid : ∀ r, r ≠ p → id r = m.id r) :
    (fun r => (s.task r).pc.phase (id r)) =
      Function.update (fun r => (m.sys.task r).pc.phase (m.id r)) p ((s.task p).pc.phase (id p)) := by
  funext r
  by_cases hr : r = p
  · subst hr; rw [Function.update_self]
  · rw [Function.update_of_ne hr,(h r hr).pc,hid r hr]

/-- The operations of other processes keep their entries and answers. -/
theorem answer_other {s : Sys} (hm : m.Sound) {r : Pid} (h : Spares p m.sys s) (hr : r ≠ p)
    (hpast : (s.task r).pc.phase (m.id r) = .past (m.id r)) :
    ∃ e ∈ m.book.entries, e.invoked = m.id r ∧ e.op = (s.task r).outcome := by
  rw [(h r hr).pc] at hpast
  rw [(h r hr).outcome]
  exact hm.told r hpast

theorem sound_begin {s : Sys} (hm : m.Sound) (h : step m.sys a = some s) (hs : Spares p m.sys s)
    (hlog : s.log = m.sys.log) (hnew : ∀ id, (s.task p).pc.phase id = .pending id) : (m.begin p s).Sound where
  inv := inv_step h hm.inv
  certain := certain_step h hm.inv.lock hm.certain
  book := by
    have hphases := phases_update (m := m) hs (Function.update m.id p m.book.clock) fun r hr =>
      Function.update_of_ne hr _ _
    rw [Function.update_self,hnew] at hphases
    change Book.Kept _ fun r => (s.task r).pc.phase (Function.update m.id p m.book.clock r)
    rw [hphases]
    exact hm.book.invoke p
  log := hlog.trans hm.log
  agree := by
    obtain ⟨q,hq,hag⟩ := hm.agree
    exact ⟨q,hq,hlog ▸ hag⟩
  told r hr := by
    simp only [Machine.begin] at hr ⊢
    by_cases hrp : r = p
    · subst hrp
      rw [hnew] at hr
      contradiction
    · rw [Function.update_of_ne hrp] at hr ⊢
      exact answer_other hm hs hrp hr

theorem phase_cases (pc : Pc) (id : ℕ) :
    pc.phase id = .idle ∨ pc.phase id = .pending id ∨ pc.phase id = .past id := by
  cases pc <;> simp [Pc.phase]

/-- The machine after a statement that completes no transfer, with a book that has the same entries. -/
theorem sound_keep {s : Sys} {b : Book QueueOp} (hm : m.Sound) (h : step m.sys a = some s) (hs : Spares p m.sys s)
    (hb : b.Kept fun r => (s.task r).pc.phase (m.id r)) (hentries : b.entries = m.book.entries)
    (hlog : s.log = m.sys.log) (htold : (s.task p).pc.phase (m.id p) = .past (m.id p) →
      (m.sys.task p).pc.phase (m.id p) = .past (m.id p) ∧ (s.task p).outcome = (m.sys.task p).outcome) :
    Machine.Sound ⟨s,m.id,b⟩ where
  inv := inv_step h hm.inv
  certain := certain_step h hm.inv.lock hm.certain
  book := hb
  log := by rw [hlog,hm.log,transfers,transfers,hentries]
  agree := by
    obtain ⟨q,hq,hag⟩ := hm.agree
    exact ⟨q,by rwa [hentries],hlog ▸ hag⟩
  told r hr := by
    simp only [hentries]
    by_cases hrp : r = p
    · subst hrp
      obtain ⟨hpast,hout⟩ := htold hr
      rw [hout]
      exact hm.told r hpast
    · exact answer_other hm hs hrp hr

/-- The machine after the statement at which an operation takes effect. -/
theorem sound_log {s : Sys} {op : QueueOp} (hm : m.Sound) (h : step m.sys a = some s) (hs : Spares p m.sys s)
    (hpending : (m.sys.task p).pc.phase (m.id p) = .pending (m.id p))
    (hpast : (s.task p).pc.phase (m.id p) = .past (m.id p)) (hout : (s.task p).outcome = op)
    (hlog : s.log = m.sys.log ++ op.transfer.toList)
    (hop : ∀ q, Replays m.sys.log q → ∃ r, queueStep q op = some r ∧ Replays s.log r) :
    Machine.Sound ⟨s,m.id,m.book.log (m.id p) op⟩ where
  inv := inv_step h hm.inv
  certain := certain_step h hm.inv.lock hm.certain
  book := by
    have hphases := phases_update hs m.id fun _ _ => rfl
    rw [hpast] at hphases
    change Book.Kept _ fun r => (s.task r).pc.phase (m.id r)
    rw [hphases]
    exact hm.book.log hpending op
  log := by rw [hlog,hm.log,transfers_log]
  agree := by
    obtain ⟨q,hq,hag⟩ := hm.agree
    obtain ⟨r,hr,hagr⟩ := hop q hag
    refine ⟨r,?_,hagr⟩
    simp only [Book.log, Book.tick, List.map_append, List.map_singleton]
    exact run_concat_eq_some.mpr ⟨q,hq,hr⟩
  told r hr := by
    by_cases hrp : r = p
    · subst hrp
      exact ⟨_,List.mem_append_right _ (List.mem_singleton_self _),rfl,hout.symm⟩
    · obtain ⟨e,he,hid,hop⟩ := answer_other hm hs hrp hr
      exact ⟨e,List.mem_append_left _ he,hid,hop⟩

/-- The machine after a statement of `p` that begins no operation. -/
theorem sound_statement (hm : m.Sound) {c : Choice} {t : Task} {e : Effect}
    (hst : statement m.sys.dev (m.sys.task p) c = some (t,e)) (hpc : (m.sys.task p).pc ≠ .selAgain) :
    Machine.Sound ⟨e.apply p (m.sys.setTask p t),m.id,
      record m.book (m.id p) (m.sys.task p) ((e.apply p (m.sys.setTask p t)).task p)⟩ := by
  have hstep : step m.sys (.run p c) = some (e.apply p (m.sys.setTask p t)) := by rw [step,hst]; rfl
  have hself := apply_setTask_self p m.sys t e
  have hs : Spares p m.sys (e.apply p (m.sys.setTask p t)) := fun r hr => apply_setTask_other hr m.sys t e
  have hphases := phases_update hs m.id fun _ _ => rfl
  have hlog : (e.apply p (m.sys.setTask p t)).log = e.logAfter m.sys.log :=
    (apply_data p (m.sys.setTask p t) e).2.2
  have hheld : (m.sys.task p).pc.holds = true →
      (m.sys.task p).holding m.sys.dev.currentLen m.sys.dev.mem m.sys.log :=
    fun hp => hm.inv.data.held p ((hm.inv.lock.mutex p).mpr hp)
  have htakes : ∀ q, Replays m.sys.log q → Takes (m.id p) m.sys.log q (m.sys.task p) t e := fun q hag =>
    statement_takes hheld (hm.inv.data.framed p) (hm.inv.undisturbed p) (hm.certain p) hag hst
  obtain ⟨htook,hkept⟩ := statement_settles (m.id p) (hm.inv.data.framed p) hst
  have hadv := statement_goes_on (m.id p) hst
  obtain ⟨q,-,hag⟩ := hm.agree
  have hquiet := htakes q hag
  have hop : (m.sys.task p).op ((e.apply p (m.sys.setTask p t)).task p) = (m.sys.task p).op t := by
    simp only [Task.op, hself.mask]
  unfold record
  rw [hop,hself.pc]
  rw [hself.pc] at hphases
  obtain hφ | hφ | hφ := phase_cases (m.sys.task p).pc (m.id p)
  · have hidle : t.pc.phase (m.id p) = .idle := by simpa only [Advances, hφ, if_neg hpc] using hadv
    simp only [Takes, hφ] at hquiet
    simp only [hφ]
    refine sound_keep hm hstep hs ?_ rfl (hlog.trans hquiet) fun hpast => ?_
    · rw [hphases,hidle,← hφ,Function.update_eq_self]
      exact hm.book.tick
    · rw [hself.pc,hidle] at hpast
      contradiction
  · obtain hφ' | hφ' : t.pc.phase (m.id p) = .pending (m.id p) ∨ t.pc.phase (m.id p) = .past (m.id p) := by
      simpa only [Advances, hφ] using hadv
    · simp only [Takes, hφ, hφ'] at hquiet
      simp only [hφ, hφ']
      refine sound_keep hm hstep hs ?_ rfl (hlog.trans hquiet) fun hpast => ?_
      · rw [hphases,hφ',← hφ,Function.update_eq_self]
        exact hm.book.tick
      · rw [hself.pc,hφ'] at hpast
        contradiction
    · simp only [hφ, hφ']
      simp only [Takes, hφ, hφ'] at hquiet htakes
      refine sound_log hm hstep hs hφ (by rw [hself.pc,hφ']) (hself.outcome.trans (htook hφ hφ'))
        (hlog.trans hquiet.1) fun q hag => ?_
      rw [hlog]
      exact (htakes q hag).2
  · obtain hφ' | hφ' : t.pc.phase (m.id p) = .past (m.id p) ∨ t.pc.phase (m.id p) = .idle := by
      simpa only [Advances, hφ] using hadv
    · simp only [Takes, hφ] at hquiet
      simp only [hφ, hφ']
      refine sound_keep hm hstep hs ?_ rfl (hlog.trans hquiet) fun _ => ⟨hφ,hself.outcome.trans (hkept hφ hφ')⟩
      rw [hphases,hφ',← hφ,Function.update_eq_self]
      exact hm.book.tick
    · simp only [Takes, hφ] at hquiet
      simp only [hφ, hφ']
      refine sound_keep hm hstep hs ?_ rfl (hlog.trans hquiet) fun hpast => ?_
      · rw [hphases,hφ']
        exact hm.book.finish hφ
      · rw [hself.pc,hφ'] at hpast
        contradiction

/-- The machine after an event outside of the file operations. -/
theorem sound_quiet {s : Sys} (hm : m.Sound) (h : step m.sys a = some s) (hq : Quiet m.sys s) :
    Machine.Sound ⟨s,m.id,m.book.tick⟩ where
  inv := inv_step h hm.inv
  certain := certain_step h hm.inv.lock hm.certain
  book := by
    simp only [(hq.task _).pc]
    exact hm.book.tick
  log := hq.log.trans hm.log
  agree := by
    obtain ⟨q,hrun,hrep⟩ := hm.agree
    exact ⟨q,hrun,hq.log ▸ hrep⟩
  told r hr := by
    simp only [(hq.task r).pc] at hr
    rw [(hq.task r).outcome]
    exact hm.told r hr

theorem sound_call (hm : m.Sound) {c : Call} (hidle : (m.sys.task p).pc = .idle) :
    (m.begin p (m.sys.setTask p ((m.sys.task p).enter c))).Sound := by
  have hstep : step m.sys (.call p c) = some (m.sys.setTask p ((m.sys.task p).enter c)) := by
    rw [step,if_pos hidle]
  refine sound_begin hm hstep (fun r hr => ?_) rfl fun id => ?_
  · rw [setTask_other _ _ hr]
    exact .refl
  · rw [setTask_self]
    cases c <;> rfl

/-- Only the poll core gets to `selAgain`, and it calls `globalfifo_poll` again. -/
theorem statement_again {dev : GlobalfifoDev} {t t' : Task} {c : Choice} {e : Effect} (hpc : t.pc = .selAgain)
    (h : statement dev t c = some (t',e)) : (∃ events, t.call = .poll events) ∧ t'.pc = .pollLock ∧ e = .none := by
  obtain ⟨_,_,hcall,h⟩ | ⟨_,_,_,hcall,h⟩ | ⟨_,hcall,h⟩ | ⟨_,hcall,h⟩ := statement_move h
  all_goals cases h <;> rename_i hpc' <;> rw [hpc] at hpc' <;> try contradiction
  exact ⟨⟨_,hcall⟩,rfl,rfl⟩

theorem sound_again (hm : m.Sound) {c : Choice} {t : Task} {e : Effect}
    (hst : statement m.sys.dev (m.sys.task p) c = some (t,e)) (hpc : (m.sys.task p).pc = .selAgain) :
    (m.begin p (e.apply p (m.sys.setTask p t))).Sound := by
  have hstep : step m.sys (.run p c) = some (e.apply p (m.sys.setTask p t)) := by rw [step,hst]; rfl
  obtain ⟨-,ht,rfl⟩ := statement_again hpc hst
  refine sound_begin hm hstep (fun r hr => apply_setTask_other hr m.sys t _) rfl fun id => ?_
  rw [(apply_setTask_self p m.sys t .none).pc,ht]
  rfl

theorem sound_step (h : m.step a = some m') (hm : m.Sound) : m'.Sound := by
  obtain ⟨s,hs,rfl⟩ := Option.map_eq_some_iff.mp h
  cases a with
  | call p c =>
    simp only [step, Option.ite_none_right_eq_some, Option.some.injEq] at hs
    obtain ⟨hidle,rfl⟩ := hs
    exact sound_call hm hidle
  | run p c =>
    simp only [step, Option.map_eq_some_iff] at hs
    obtain ⟨⟨t,e⟩,hst,rfl⟩ := hs
    by_cases hpc : (m.sys.task p).pc = .selAgain
    · simp only [if_pos hpc]
      exact sound_again hm hst hpc
    · simp only [if_neg hpc]
      exact sound_statement hm hst hpc
  | _ =>
    obtain ⟨_,_,hcall,-⟩ | ⟨_,_,_,_,hrun,-⟩ | hq := step_cases hs
    · contradiction
    · contradiction
    · exact sound_quiet hm hs hq

theorem sound_reached {acts : List Act} (h : run Machine.step Machine.load acts = some m) : m.Sound :=
  run_invariant (fun _ _ _ => sound_step) h sound_load

/-- The book constrains nothing: the runs of the machine are the runs of the device. -/
theorem step_sys (m : Machine) (a : Act) : (m.step a).map Machine.sys = GlobalFifo.step m.sys a := by
  rw [Machine.step,Option.map_map]
  cases h : GlobalFifo.step m.sys a with
  | none => rfl
  | some s =>
    refine congrArg some ?_
    cases a with
    | run p c =>
      simp only [Function.comp_apply]
      split_ifs <;> rfl
    | _ => rfl

theorem run_sys (m : Machine) (acts : List Act) :
    (run Machine.step m acts).map Machine.sys = run GlobalFifo.step m.sys acts := run_map step_sys m acts

theorem machine_of_run {later : List Act} {s : Sys} (h : run GlobalFifo.step m.sys later = some s) :
    ∃ m', run Machine.step m later = some m' ∧ m'.sys = s :=
  Option.map_eq_some_iff.mp ((run_sys m later).trans h)

/-- The answer that a file operation has on its way back is the one it was entered with. -/
theorem outcome_of_returned {t : Task} (h : t.pc = .ret ∨ t.pc = .pollRet) : t.outcome = t.answer := by
  unfold Task.outcome
  rcases h with h | h <;> rw [h] <;> cases t.call <;> rfl

/-- The current operation of `p` is in the book once, with the transfer `x`. -/
def Machine.Booked (m : Machine) (p : Pid) (x : Option Transfer) : Prop :=
  ∃ e, (e ∈ m.book.entries ∧ e.invoked = m.id p ∧ e.op.transfer = x) ∧
    ∀ d ∈ m.book.entries, d.invoked = m.id p → d = e

/-- A returned operation is booked with the transfer that its caller is told of. -/
theorem booked_of_returned (hm : m.Sound) (hret : (m.sys.task p).pc = .ret) :
    m.Booked p (m.sys.task p).answer.transfer := by
  obtain ⟨e,he,hid,hop⟩ := hm.told p (by rw [hret]; rfl)
  rw [outcome_of_returned (.inl hret)] at hop
  exact ⟨e,⟨he,hid,by rw [hop]⟩,fun d hd hd' => hm.book.entry_eq hd he (hd'.trans hid.symm)⟩

/-- `FIFO_CLEAR` does not fail. -/
def Task.cleared (t : Task) : Prop := t.call = .ioctl fifoClear → t.pc = .ret → t.ret = 0

theorem statement_cleared {dev : GlobalfifoDev} {t t' : Task} {c : Choice} {e : Effect}
    (h : statement dev t c = some (t',e)) : t'.cleared := by
  have hd := statement_disciplined h
  intro hclear
  rw [hd.call] at hclear
  obtain ⟨_,_,hcall,-⟩ | ⟨_,_,_,hcall,-⟩ | ⟨_,hcall,h⟩ | ⟨_,hcall,-⟩ := statement_move h
  case inr.inr.inl =>
    obtain rfl := Call.ioctl.inj (hcall.symm.trans hclear)
    cases h <;> simp_all
  all_goals
    rw [hcall] at hclear
    contradiction

theorem cleared_reached {acts : List Act} {s : Sys} (h : Reached acts s) (p : Pid) : (s.task p).cleared := by
  refine run_invariant (I := fun s => (s.task p).cleared) (fun s a s' hst hs => ?_) h (fun _ hpc => by cases hpc)
  refine task_step (fun hn hs => ?_) hst ?_ ?_ hs
  · rwa [Task.cleared,hn.call,hn.pc,hn.ret]
  · intro c _ _ hpc
    cases c <;> cases hpc
  · intro c t e _ hst
    exact statement_cleared hst

theorem entries_record (b : Book QueueOp) (id : ℕ) (t t' : Task) : b.entries <+: (record b id t t').entries := by
  unfold record
  split
  · exact List.prefix_append _ _
  · exact List.prefix_rfl
  · exact List.prefix_rfl

/-- A step only adds to the book, and a read, write or ioctl keeps its name until the next call. -/
theorem book_step (h : m.step a = some m') (hcall : ∀ c, a ≠ .call p c)
    (hpoll : ∀ events, (m.sys.task p).call ≠ .poll events) :
    m.book.entries <+: m'.book.entries ∧ m'.id p = m.id p := by
  obtain ⟨s,hs,rfl⟩ := Option.map_eq_some_iff.mp h
  cases a with
  | call r c =>
    have hrp : p ≠ r := by rintro rfl; exact hcall c rfl
    exact ⟨List.prefix_rfl,Function.update_of_ne hrp _ _⟩
  | run r c =>
    by_cases hpc : (m.sys.task r).pc = .selAgain
    · have hrp : p ≠ r := by
        rintro rfl
        simp only [step, Option.map_eq_some_iff] at hs
        obtain ⟨⟨t,e⟩,hst,-⟩ := hs
        obtain ⟨⟨events,hev⟩,-⟩ := statement_again hpc hst
        exact hpoll events hev
      simp only [if_pos hpc]
      exact ⟨List.prefix_rfl,Function.update_of_ne hrp _ _⟩
    · simp only [if_neg hpc]
      exact ⟨entries_record _ _ _ _,trivial⟩
  | _ => exact ⟨List.prefix_rfl,rfl⟩

theorem book_run {later : List Act} (h : run Machine.step m later = some m') (hcalls : ∀ c, .call p c ∉ later)
    (hpoll : ∀ events, (m.sys.task p).call ≠ .poll events) :
    m.book.entries <+: m'.book.entries ∧ m'.id p = m.id p := by
  induction later generalizing m with
  | nil => cases h; exact ⟨List.prefix_rfl,rfl⟩
  | cons a later ih =>
    obtain ⟨n,hn,hrest⟩ := run_cons_eq_some.mp h
    have hcall : ∀ c, a ≠ .call p c := by rintro c rfl; exact hcalls c List.mem_cons_self
    have hsys : GlobalFifo.step m.sys a = some n.sys := by rw [← step_sys,hn]; rfl
    have hone : run GlobalFifo.step m.sys [a] = some n.sys := run_cons_eq_some.mpr ⟨_,hsys,rfl⟩
    have hsame : (n.sys.task p).call = (m.sys.task p).call :=
      call_run (fun c hc => hcall c (List.mem_singleton.mp hc).symm) hone
    obtain ⟨hentries,hid⟩ := book_step hn hcall hpoll
    obtain ⟨hentries',hid'⟩ := ih hrest (fun c hc => hcalls c (List.mem_cons_of_mem _ hc)) (by rwa [hsame])
    exact ⟨hentries.trans hentries',hid'.trans hid⟩

/-- An operation that returns, with no other transfer since some moment before it took effect, has completed
the last one. -/
theorem last_of_returned {later : List Act} {x : Transfer} (hm : m.Sound)
    (h : run Machine.step m later = some m') (hcalls : ∀ c, .call p c ∉ later)
    (hpoll : ∀ events, (m.sys.task p).call ≠ .poll events)
    (hpending : (m.sys.task p).pc.phase (m.id p) = .pending (m.id p)) (hret : (m'.sys.task p).pc = .ret)
    (hone : m'.sys.log.length ≤ m.sys.log.length+1) (hx : (m'.sys.task p).answer.transfer = some x) :
    m'.sys.log.getLast? = some x := by
  have hm' : m'.Sound := run_invariant (fun _ _ _ => sound_step) h hm
  obtain ⟨⟨new,hnew⟩,hid⟩ := book_run h hcalls hpoll
  obtain ⟨e,⟨he,hinvoked,hop⟩,-⟩ := booked_of_returned hm' hret
  rw [hid] at hinvoked
  have hlater : e ∈ new := by
    rw [← hnew,List.mem_append] at he
    exact he.resolve_left fun hold => hm.book.pending p _ hpending e hold hinvoked
  have hlog : m'.sys.log = m.sys.log ++ new.filterMap fun e => e.op.transfer := by
    rw [hm'.log,hm.log,transfers,transfers,← hnew,List.filterMap_append]
  have hmem : x ∈ new.filterMap fun e => e.op.transfer := List.mem_filterMap.mpr ⟨e,hlater,hop.trans hx⟩
  rw [hlog,List.length_append] at hone
  obtain ⟨y,hy⟩ : ∃ y, (new.filterMap fun e => e.op.transfer) = [y] :=
    List.length_eq_one_iff.mp (le_antisymm (by omega) (List.length_pos_of_mem hmem))
  rw [hy,List.mem_singleton] at hmem
  rw [hlog,hy,hmem,List.getLast?_concat]

/-- The file operations of any number of processes are those of one bounded queue, in an order that
respects real time. A returned operation has one place in it, and what it gave its caller is what the
queue gives there; at the end of the order the queue is the contents of the device. -/
theorem calls_linearizable {acts : List Act} (h : run Machine.step Machine.load acts = some m) :
    Reached acts m.sys ∧ Linearizable queueStep [] m.book.entries m.book.returned (fun q => m.sys.dev.mutex = none →
      q = slice m.sys.dev.mem 0 m.sys.dev.currentLen.toNat) ∧
    (∀ id r, m.book.returned id = some r → ∃! e, e ∈ m.book.entries ∧ e.invoked = id) ∧
    (∀ p, (m.sys.task p).pc = .ret ∨ (m.sys.task p).pc = .pollRet →
      ∃ e ∈ m.book.entries, e.invoked = m.id p ∧ e.op = (m.sys.task p).answer) := by
  have hm := sound_reached h
  obtain ⟨q,hrun,hrep⟩ := hm.agree
  refine ⟨?_,hm.book.linearizable hrun fun hfree => ?_,fun id r => hm.book.complete,fun p hret => ?_⟩
  · exact (run_sys Machine.load acts).symm.trans (congrArg _ h)
  · exact (hm.inv.data.free hfree).agree hrep
  · rw [← outcome_of_returned hret]
    refine hm.told p ?_
    rcases hret with hret | hret <;> rw [hret] <;> rfl

end Runs

/-- Process 1 begins to read from the empty queue and is overtaken by a write of process 2. -/
def overtaken : List Act :=
  .call 1 (.read false 8) :: List.replicate 6 (Act.run 1 .done) ++
    .call 2 (.write true 2 fun i => UInt8.ofNat (i+65)) :: List.replicate 12 (Act.run 2 .done) ++
    List.replicate 12 (Act.run 1 .done)

theorem calls_linearizable_overtaken : ∃ m, run Machine.step Machine.load overtaken = some m ∧
    (m.sys.task 1).ubuf = [65,66] ∧ m.book.entries.map Entry.invoked = [7,0] ∧ ∃ e ∈ m.book.entries,
      e.invoked = m.id 1 ∧ e.op = (m.sys.task 1).answer := by
  obtain ⟨m,hm,hp⟩ := exists_of_run_any Machine.step Machine.load overtaken
    (fun m => (m.sys.task 1).pc = .ret ∧ (m.sys.task 1).ubuf = [65,66] ∧
      m.book.entries.map Entry.invoked = [7,0]) (by decide)
  simp only [decide_eq_true_eq] at hp
  exact ⟨m,hm,hp.2.1,hp.2.2,(calls_linearizable hm).2.2.2 1 (.inl hp.1)⟩

end ExampleKernel.GlobalFifo
