import ExampleKernel.GlobalFifo.Locking

/-! The contents of the device refine a bounded byte queue: the transfers completed so far, in
mutex order, replay from the empty queue to the live part of the array. The holder of the mutex
is described by an assertion at each of its program points, the other frames by what they carry
between two critical sections. -/
namespace ExampleKernel.GlobalFifo
open ExampleKernel.Foundation ExampleKernel.Kernel

/-- Size of the array as a number of bytes. -/
def capacity : ℕ := 4096

theorem globalfifoSize_toNat : globalfifoSize.toNat = capacity := rfl

/-- The live bytes are what the completed transfers leave in a bounded queue. -/
structure Balanced (len : UInt32) (mem : ℕ → UInt8) (log : List Transfer) : Prop where
  bound : len.toNat ≤ capacity
  replay : run (BoundedQueue.step capacity) [] log = some (slice mem 0 len.toNat)

/-- What the holder of the mutex may assume at its program point. -/
def Task.holding (len : UInt32) (mem : ℕ → UInt8) (log : List Transfer) (t : Task) : Prop :=
  match t.call, t.pc with
  | .read _ _, .sleep | .read _ _, .unlock => Balanced len mem log ∧ len = 0
  | .read _ n, .copy => Balanced len mem log ∧ t.count.toNat = min n.toNat len.toNat
  | .read _ _, .shift =>
    Balanced len mem log ∧ t.count.toNat ≤ len.toNat ∧ t.ubuf = slice mem 0 t.count.toNat
  | .read _ _, .account =>
    len.toNat ≤ capacity ∧ t.count.toNat ≤ len.toNat ∧ t.ubuf.length = t.count.toNat ∧
      run (BoundedQueue.step capacity) [] log =
        some (t.ubuf ++ slice mem 0 (len.toNat-t.count.toNat))
  | .write _ _ _, .sleep | .write _ _ _, .unlock => Balanced len mem log ∧ len = globalfifoSize
  | .write _ n _, .copy => Balanced len mem log ∧ t.count.toNat = min n.toNat (capacity-len.toNat)
  | .write _ _ buf, .account =>
    Balanced len mem log ∧ len.toNat+t.count.toNat ≤ capacity ∧
      slice mem len.toNat t.count.toNat = slice buf 0 t.count.toNat
  | .ioctl _, .ioctlMemset | .ioctl _, .ioctlUnlock => Balanced len mem log ∧ len = 0
  | _, _ => Balanced len mem log

/-- What a transfer of `n` requested bytes carries along: the request until the clamp, then the
clamped count with `moved` bytes copied, and at last the return value. -/
def Task.progress (t : Task) (n limit moved : ℕ) : Prop :=
  match t.pc with
  | .lock | .addWait | .test | .sleep | .unlock | .schedule | .asleep | .resume | .relock
  | .clamp => t.count.toNat = n
  | .shift | .account | .wake | .sigio =>
    t.count.toNat = min n limit ∧ moved = t.count.toNat ∧ limit ≤ capacity
  | .out | .removeWait | .setRunning | .ret | .idle => 0 ≤ t.ret → t.ret = min n limit ∧ moved = t.ret
  | _ => True

def Task.framed (t : Task) : Prop :=
  match t.call with
  | .read _ n => t.progress n.toNat t.seen t.ubuf.length
  | .write _ n _ => t.progress n.toNat (capacity-t.seen) t.count.toNat
  | _ => True

def Effect.lenAfter (before : UInt32) : Effect → UInt32
  | .setLen len _ => len
  | _ => before

def Effect.memAfter (before : ℕ → UInt8) : Effect → ℕ → UInt8
  | .store mem => mem
  | _ => before

def Effect.logAfter (before : List Transfer) : Effect → List Transfer
  | .setLen _ transfer => before ++ [transfer]
  | _ => before

section Arithmetic

theorem toUInt64_sub_toNat {len : UInt32} {n : UInt64} (h : n.toNat ≤ len.toNat) :
    (len.toUInt64-n).toNat = len.toNat-n.toNat := by
  rw [UInt64.toNat_sub_of_le _ _ (by simpa [UInt64.le_iff_toNat_le] using h)]
  simp

theorem len_sub_toNat {len : UInt32} {n : UInt64} (h : n.toNat ≤ len.toNat) :
    (len.toUInt64-n).toUInt32.toNat = len.toNat-n.toNat := by
  have hlt := len.toNat_lt
  rw [UInt64.toNat_toUInt32,toUInt64_sub_toNat h]
  omega

theorem len_add_toNat {len : UInt32} {n : UInt64} (h : len.toNat+n.toNat ≤ capacity) :
    (len.toUInt64+n).toUInt32.toNat = len.toNat+n.toNat := by
  unfold capacity at h
  rw [UInt64.toNat_toUInt32,UInt64.toNat_add]
  simp only [UInt32.toNat_toUInt64]
  omega

theorem room_toNat {len : UInt32} (h : len.toNat ≤ capacity) : (room len).toNat = capacity-len.toNat := by
  have hle : len ≤ globalfifoSize := by
    rw [UInt32.le_iff_toNat_le]; exact h
  simp only [room, UInt32.toNat_toUInt64, UInt32.toNat_sub_of_le _ _ hle]
  rfl

theorem intOf_count {n : UInt64} {k : ℕ} (h : n.toNat = k) (hk : k ≤ capacity) :
    intOf n.toNat = k := by
  unfold capacity at hk
  rw [h,intOf_of_lt (by omega)]

end Arithmetic

/-- Moving the rest down keeps it: what was delivered followed by it is the old queue. -/
theorem slice_memmove (mem : ℕ → UInt8) {k n : ℕ} (h : k ≤ n) :
    slice mem 0 k ++ slice (memmove mem k (n-k)) 0 (n-k) = slice mem 0 n := by
  rw [memmove,slice_blit_self,slice_split mem 0 h,Nat.zero_add]
  congr 1
  exact slice_congr fun i _ => by simp

theorem Balanced.get {len' : UInt32} {mem : ℕ → UInt8} {log : List Transfer} {ubuf : List UInt8}
    (hlen : len'.toNat ≤ capacity)
    (h : run (BoundedQueue.step capacity) [] log = some (ubuf ++ slice mem 0 len'.toNat)) :
    Balanced len' mem (log ++ [.get ubuf]) := by
  refine ⟨hlen,run_concat_eq_some.mpr ⟨_,h,?_⟩⟩
  simp [BoundedQueue.step]

theorem Balanced.put {len len' : UInt32} {mem : ℕ → UInt8} {log : List Transfer} {bytes : List UInt8}
    {k : ℕ} (h : Balanced len mem log) (hlen : len'.toNat = len.toNat+k) (hbound : len'.toNat ≤ capacity)
    (hbytes : slice mem len.toNat k = bytes) : Balanced len' mem (log ++ [.put bytes]) := by
  refine ⟨hbound,run_concat_eq_some.mpr ⟨_,h.replay,?_⟩⟩
  have hroom : len.toNat+bytes.length ≤ capacity := by
    rw [← hbytes,slice_length]; omega
  simp only [BoundedQueue.step, slice_length, hroom, if_true]
  rw [hlen,slice_add,Nat.zero_add,hbytes]

theorem Balanced.clear {len : UInt32} {mem : ℕ → UInt8} {log : List Transfer}
    (h : Balanced len mem log) : Balanced 0 mem (log ++ [.clear]) :=
  ⟨Nat.zero_le _,run_concat_eq_some.mpr ⟨_,h.replay,rfl⟩⟩

/-- Stores behind the live bytes do not change the queue. -/
theorem Balanced.store {len : UInt32} {mem mem' : ℕ → UInt8} {log : List Transfer}
    (h : Balanced len mem log) (hlive : ∀ i, i < len.toNat → mem' i = mem i) : Balanced len mem' log := by
  refine ⟨h.bound,h.replay.trans (congrArg some (slice_congr fun i hi => ?_))⟩
  simpa using (hlive i hi).symm

theorem blit_live (mem buf : ℕ → UInt8) (len n : ℕ) {i : ℕ} (h : i < len) :
    blit mem len n buf i = mem i := blit_outside _ _ _ _ (.inl h)

section Statements
variable {dev : GlobalfifoDev} {t t' : Task} {c : Choice} {e : Effect} {log : List Transfer}
attribute [local simp] Task.holding Effect.lenAfter Effect.memAfter Effect.logAfter

theorem read_holding {nonblock : Bool} {n : UInt64} (hcall : t.call = .read nonblock n)
    (hA : t.holding dev.currentLen dev.mem log) (hF : t.framed) (h : ReadMove nonblock dev t c t' e) :
    t'.holding (e.lenAfter dev.currentLen) (e.memAfter dev.mem) (e.logAfter log) := by
  cases h <;> rename_i hpc <;> simp only [Task.holding, hcall, hpc] at hA
  case clamp =>
    simp only [Task.framed, hcall, Task.progress, hpc] at hF
    simpa [hcall, clampTo_toNat, hF] using hA
  case fault => simpa [hcall] using hA.1
  case copy =>
    have hle : t.count.toNat ≤ dev.currentLen.toNat := by omega
    simpa [hcall, hle] using hA.1
  case shift =>
    obtain ⟨hbal,hle,hubuf⟩ := hA
    simp only [Task.goto, Task.holding, hcall, Effect.lenAfter, Effect.memAfter, Effect.logAfter,
      toUInt64_sub_toNat hle]
    exact ⟨hbal.bound,hle,by simp [hubuf],by rw [hubuf,slice_memmove _ hle]; exact hbal.replay⟩
  case account =>
    obtain ⟨hbound,hle,-,hrun⟩ := hA
    have hlen := len_sub_toNat hle
    simp only [Task.goto, Task.holding, hcall, Effect.lenAfter, Effect.memAfter, Effect.logAfter]
    exact Balanced.get (by omega) (by rw [hlen]; exact hrun)
  all_goals
    simp only [Task.goto, Task.exit, Task.holding, hcall, Effect.lenAfter, Effect.memAfter,
      Effect.logAfter]
    first | exact hA | exact hA.1 | exact ⟨hA,by assumption⟩

theorem write_holding {nonblock : Bool} {n : UInt64} {buf : ℕ → UInt8}
    (hcall : t.call = .write nonblock n buf)
    (hA : t.holding dev.currentLen dev.mem log) (hF : t.framed) (h : WriteMove nonblock buf dev t c t' e) :
    t'.holding (e.lenAfter dev.currentLen) (e.memAfter dev.mem) (e.logAfter log) := by
  cases h <;> rename_i hpc <;> simp only [Task.holding, hcall, hpc] at hA
  case clamp =>
    simp only [Task.framed, hcall, Task.progress, hpc] at hF
    simpa [hcall, clampTo_toNat, hF, room_toNat hA.bound] using hA
  case fault =>
    obtain ⟨hbal,hcount⟩ := hA
    have hbound := hbal.bound
    simpa [hcall] using hbal.store fun i hi => copyFromUserFault_outside _ _ _ (by omega) (.inl hi)
  case copy =>
    obtain ⟨hbal,hcount⟩ := hA
    have hbound := hbal.bound
    have hfit : dev.currentLen.toNat+t.count.toNat ≤ capacity := by omega
    simpa [hcall, hfit, slice_blit_self] using hbal.store fun i hi => blit_live _ _ _ _ hi
  case account =>
    obtain ⟨hbal,hfit,hbytes⟩ := hA
    have hlen := len_add_toNat hfit
    simp only [Task.goto, Task.holding, hcall, Effect.lenAfter, Effect.memAfter, Effect.logAfter]
    exact hbal.put hlen (by omega) hbytes
  all_goals
    simp only [Task.goto, Task.exit, Task.holding, hcall, Effect.lenAfter, Effect.memAfter,
      Effect.logAfter]
    first | exact hA | exact hA.1 | exact ⟨hA,by assumption⟩

theorem ioctl_holding {cmd : UInt32} (hcall : t.call = .ioctl cmd)
    (hA : t.holding dev.currentLen dev.mem log) (h : IoctlMove cmd dev t t' e) :
    t'.holding (e.lenAfter dev.currentLen) (e.memAfter dev.mem) (e.logAfter log) := by
  cases h <;> rename_i hpc <;> simp only [Task.holding, hcall, hpc] at hA
  case clear => simpa [hcall] using hA.clear
  case memset =>
    obtain ⟨hbal,hzero⟩ := hA
    have hlive : ∀ i, i < dev.currentLen.toNat →
        blit dev.mem 0 globalfifoSize.toNat (fun _ => 0) i = dev.mem i := by
      intro i hi; simp [hzero] at hi
    simpa [hcall, hzero] using hbal.store hlive
  all_goals
    simp only [Task.goto, Task.exit, Task.holding, hcall, Effect.lenAfter, Effect.memAfter,
      Effect.logAfter]
    first | exact hA | exact hA.1

theorem poll_holding {events : Events} (hcall : t.call = .poll events)
    (hA : t.holding dev.currentLen dev.mem log) (h : PollMove events dev t c t' e) :
    t'.holding (e.lenAfter dev.currentLen) (e.memAfter dev.mem) (e.logAfter log) := by
  simp only [Task.holding, hcall] at hA
  cases h <;> simpa [hcall] using hA

/-- Every statement takes the assertion at its program point to the one at the next. -/
theorem statement_holding (hA : t.holding dev.currentLen dev.mem log) (hF : t.framed)
    (h : statement dev t c = some (t',e)) :
    t'.holding (e.lenAfter dev.currentLen) (e.memAfter dev.mem) (e.logAfter log) := by
  obtain ⟨_,_,hcall,h⟩ | ⟨_,_,_,hcall,h⟩ | ⟨_,hcall,h⟩ | ⟨_,hcall,h⟩ := statement_move h
  · exact read_holding hcall hA hF h
  · exact write_holding hcall hA hF h
  · exact ioctl_holding hcall hA h
  · exact poll_holding hcall hA h

theorem read_framed {nonblock : Bool} {n : UInt64} (hcall : t.call = .read nonblock n)
    (hA : t.pc.holds = true → t.holding dev.currentLen dev.mem log) (hF : t.framed)
    (h : ReadMove nonblock dev t c t' e) : t'.framed := by
  cases h <;> rename_i hpc <;> simp only [Task.framed, Task.progress, hcall, hpc] at hF
  case fault => simp [Task.framed, Task.progress, hcall, efault]
  case copy =>
    simp only [Task.holding, hcall, hpc, Pc.holds, true_implies] at hA
    obtain ⟨hbal,hcount⟩ := hA
    simpa [Task.framed, Task.progress, hcall, hcount] using hbal.bound
  case clamp => simp [Task.framed, Task.progress, hcall]
  case wake =>
    obtain ⟨hcount,hmoved,hlimit⟩ := hF
    simp only [Task.exit, Task.framed, Task.progress, hcall]
    rw [intOf_count hcount (by omega)]
    exact fun _ => ⟨rfl,by rw [hmoved,hcount]⟩
  all_goals
    simp only [Task.goto, Task.exit, Task.framed, Task.progress, hcall, eagain, erestartsys]
    first | exact hF | (intro hneg; omega)

theorem write_framed {nonblock : Bool} {n : UInt64} {buf : ℕ → UInt8}
    (hcall : t.call = .write nonblock n buf)
    (hA : t.pc.holds = true → t.holding dev.currentLen dev.mem log) (hF : t.framed)
    (h : WriteMove nonblock buf dev t c t' e) : t'.framed := by
  cases h <;> rename_i hpc <;> simp only [Task.framed, Task.progress, hcall, hpc] at hF
  case fault => simp [Task.framed, Task.progress, hcall, efault]
  case copy =>
    simp only [Task.holding, hcall, hpc, Pc.holds, true_implies] at hA
    obtain ⟨hbal,hcount⟩ := hA
    simp [Task.framed, Task.progress, hcall, hcount]
  case clamp => simp [Task.framed, Task.progress, hcall]
  case unwatched | sigio =>
    obtain ⟨hcount,-,hlimit⟩ := hF
    simp only [Task.exit, Task.framed, Task.progress, hcall]
    rw [intOf_count hcount (by omega)]
    exact fun _ => ⟨rfl,by rw [hcount]⟩
  all_goals
    simp only [Task.goto, Task.exit, Task.framed, Task.progress, hcall, eagain, erestartsys]
    first | exact hF | (intro hneg; omega)

theorem statement_framed (hA : t.pc.holds = true → t.holding dev.currentLen dev.mem log)
    (hF : t.framed) (h : statement dev t c = some (t',e)) : t'.framed := by
  have hd := statement_disciplined h
  obtain ⟨_,_,hcall,h⟩ | ⟨_,_,_,hcall,h⟩ | ⟨_,hcall,-⟩ | ⟨_,hcall,-⟩ := statement_move h
  · exact read_framed hcall hA hF h
  · exact write_framed hcall hA hF h
  all_goals simp [Task.framed, hd.call, hcall]

end Statements

theorem Nudge.framed {t t' : Task} (h : Nudge t t') (hF : t.framed) : t'.framed := by
  unfold Task.framed Task.progress at *
  rwa [h.call,h.pc,h.count,h.ret,h.ubuf,h.seen]

theorem Nudge.holding {t t' : Task} (h : Nudge t t') {len : UInt32} {mem : ℕ → UInt8}
    {log : List Transfer} (hA : t.holding len mem log) : t'.holding len mem log := by
  unfold Task.holding at *
  rwa [h.call,h.pc,h.count,h.ubuf]

/-- Outside its critical sections a task assumes no more than the free mutex guarantees. -/
theorem holding_of_not_holds {t : Task} (h : t.pc.holds = false) {len : UInt32} {mem : ℕ → UInt8}
    {log : List Transfer} : t.holding len mem log ↔ Balanced len mem log := by
  unfold Task.holding
  cases t.call <;> cases hpc : t.pc <;> first | rfl | exact absurd h (by rw [hpc]; decide)

theorem apply_data (p : Pid) (s : Sys) (e : Effect) :
    (e.apply p s).dev.currentLen = e.lenAfter s.dev.currentLen ∧
      (e.apply p s).dev.mem = e.memAfter s.dev.mem ∧ (e.apply p s).log = e.logAfter s.log := by
  cases e <;> exact ⟨rfl,rfl,rfl⟩

/-- The data invariant: the queue is balanced while the mutex is free, its holder satisfies the
assertion at its program point, and every frame carries what it should. -/
structure DataInv (s : Sys) : Prop where
  free : s.dev.mutex = none → Balanced s.dev.currentLen s.dev.mem s.log
  held : ∀ p, s.dev.mutex = some p → (s.task p).holding s.dev.currentLen s.dev.mem s.log
  framed : ∀ p, (s.task p).framed

theorem dataInv_load : DataInv load :=
  ⟨fun _ => ⟨Nat.zero_le _,rfl⟩,nofun,fun _ => trivial⟩

theorem enter_framed (t : Task) (c : Call) : (t.enter c).framed := by
  cases c <;> simp [Task.enter, Task.framed, Task.progress, entryPoint, Call.count]

theorem dataInv_call {s : Sys} (hl : LockInv s) (hs : DataInv s) {p : Pid} {c : Call}
    (hidle : (s.task p).pc = .idle) : DataInv (s.setTask p ((s.task p).enter c)) := by
  refine ⟨hs.free,fun r hr => ?_,fun r => ?_⟩
  · have hrp : r ≠ p := by
      rintro rfl
      have hpc := (hl.mutex r).mp hr
      rw [hidle] at hpc
      contradiction
    simpa only [setTask_dev, setTask_log, setTask_other s _ hrp] using hs.held r hr
  · by_cases hrp : r = p
    · subst hrp; rw [setTask_self]; exact enter_framed _ c
    · rw [setTask_other s _ hrp]; exact hs.framed r

/-- A task that runs a statement satisfies its own assertion unless another task has the mutex. -/
theorem holding_of_not_excluded {s : Sys} (hl : LockInv s) (hs : DataInv s) {p : Pid}
    (h : ∀ r, s.dev.mutex = some r → r = p) :
    (s.task p).holding s.dev.currentLen s.dev.mem s.log := by
  cases hm : s.dev.mutex with
  | none =>
    have hp : (s.task p).pc.holds = false := by
      rw [← Bool.not_eq_true,← hl.mutex p,hm]; simp
    exact (holding_of_not_holds hp).mpr (hs.free hm)
  | some r => rw [← h r hm]; exact hs.held r hm

/-- The frames of all tasks after a statement. -/
theorem framed_statement {s : Sys} (hl : LockInv s) (hs : DataInv s) {p : Pid} {c : Choice}
    {t : Task} {e : Effect} (h : statement s.dev (s.task p) c = some (t,e)) (r : Pid) :
    ((e.apply p (s.setTask p t)).task r).framed := by
  by_cases hrp : r = p
  · subst hrp
    have hA : (s.task r).pc.holds = true → (s.task r).holding s.dev.currentLen s.dev.mem s.log :=
      fun hp => hs.held r ((hl.mutex r).mpr hp)
    exact (apply_setTask_self r s t e).framed (statement_framed hA (hs.framed r) h)
  · exact (apply_setTask_other hrp s t e).framed (hs.framed r)

/-- The mutex is free or held by the running task, whose assertion moves on. -/
theorem dataInv_inside {s : Sys} (hl : LockInv s) (hs : DataInv s) {p : Pid} {c : Choice}
    {t : Task} {e : Effect} (h : statement s.dev (s.task p) c = some (t,e))
    (hex : ∀ r, s.dev.mutex = some r → r = p) : DataInv (e.apply p (s.setTask p t)) := by
  have hnext := statement_holding (holding_of_not_excluded hl hs hex) (hs.framed p) h
  have hmutex := mutexAfter_iff hl (statement_disciplined h)
  obtain ⟨hlen,hmem,hlog⟩ := apply_data p (s.setTask p t) e
  refine ⟨fun hfree => ?_,fun r hr => ?_,framed_statement hl hs h⟩
  · rw [hlen,hmem,hlog]
    refine (holding_of_not_holds ?_).mp hnext
    rw [apply_mutex,setTask_dev] at hfree
    rw [← Bool.not_eq_true]
    intro hp
    rw [(hmutex p).mpr (by simpa using hp)] at hfree
    contradiction
  · rw [apply_mutex,setTask_dev,hmutex] at hr
    split_ifs at hr with hrp
    · subst hrp
      rw [hlen,hmem,hlog]
      exact (apply_setTask_self r s t e).holding hnext
    · exact absurd (hex r ((hl.mutex r).mpr hr)) hrp

theorem data_of_not_writes {e : Effect} (h : e.writes = false) (len : UInt32) (mem : ℕ → UInt8)
    (log : List Transfer) : e.lenAfter len = len ∧ e.memAfter mem = mem ∧ e.logAfter log = log := by
  cases e <;> first | exact ⟨rfl,rfl,rfl⟩ | cases h

/-- Another task has the mutex, so the statement leaves the queue and the mutex alone. -/
theorem dataInv_outside {s : Sys} (hl : LockInv s) (hs : DataInv s) {p r : Pid} {c : Choice}
    {t : Task} {e : Effect} (h : statement s.dev (s.task p) c = some (t,e))
    (hr : s.dev.mutex = some r) (hrp : r ≠ p) : DataInv (e.apply p (s.setTask p t)) := by
  have hd := statement_disciplined h
  have hp : (s.task p).pc.holds = false := by
    rw [← Bool.not_eq_true,← hl.mutex p,hr]; simpa using hrp
  have hw : e.writes = false := by
    rw [← Bool.not_eq_true]; intro hw; rw [hd.writes hw] at hp; contradiction
  have hm : e.mutexAfter p s.dev.mutex = some r := by
    rw [mutexAfter_iff hl hd,if_neg hrp]; exact (hl.mutex r).mp hr
  obtain ⟨hlen,hmem,hlog⟩ := apply_data p (s.setTask p t) e
  obtain ⟨hlen',hmem',hlog'⟩ := data_of_not_writes hw s.dev.currentLen s.dev.mem s.log
  refine ⟨fun hfree => ?_,fun q hq => ?_,framed_statement hl hs h⟩
  · rw [apply_mutex,setTask_dev,hm] at hfree
    contradiction
  · rw [apply_mutex,setTask_dev,hm] at hq
    cases hq
    rw [hlen,hmem,hlog]
    simp only [setTask_dev, setTask_log, hlen', hmem', hlog']
    exact (apply_setTask_other hrp s t e).holding (hs.held r hr)

theorem dataInv_step {s s' : Sys} {a : Act} (h : step s a = some s') (hl : LockInv s)
    (hs : DataInv s) : DataInv s' := by
  obtain ⟨p,c,-,hidle,rfl⟩ | ⟨p,c,t,e,-,hst,rfl⟩ | hq := step_cases h
  · exact dataInv_call hl hs hidle
  · by_cases hex : ∀ r, s.dev.mutex = some r → r = p
    · exact dataInv_inside hl hs hst hex
    · push Not at hex
      obtain ⟨r,hr,hrp⟩ := hex
      exact dataInv_outside hl hs hst hr hrp
  · refine ⟨?_,fun p hp => ?_,fun p => (hq.task p).framed (hs.framed p)⟩
    · rw [hq.mutex,hq.currentLen,hq.mem,hq.log]; exact hs.free
    · rw [hq.mutex] at hp
      rw [hq.currentLen,hq.mem,hq.log]
      exact (hq.task p).holding (hs.held p hp)

theorem dataInv_reached {acts : List Act} {s : Sys} (h : Reached acts s) : DataInv s :=
  (run_invariant (I := fun s => LockInv s ∧ DataInv s)
    (fun _ _ _ hst hi => ⟨lockInv_step hst hi.1,dataInv_step hst hi.1 hi.2⟩) h
    ⟨lockInv_load,dataInv_load⟩).2

/-- What the holder of the mutex knows about the length from its own statements, since no other task
changes it: it is the one seen at the copy, and a writer has found room. -/
def Task.undisturbed (len : UInt32) (t : Task) : Prop :=
  match t.call, t.pc with
  | .read _ _, .shift => len.toNat = t.seen
  | .write _ _ _, .clamp | .write _ _ _, .copy => len ≠ globalfifoSize
  | .write _ _ _, .account => len.toNat = t.seen ∧ len ≠ globalfifoSize
  | .write _ _ _, .wake | .write _ _ _, .sigio => len.toNat = t.seen+t.count.toNat ∧ t.seen < capacity
  | _, _ => True

theorem undisturbed_of_not_holds {t : Task} (h : t.pc.holds = false) (len : UInt32) : t.undisturbed len := by
  unfold Task.undisturbed
  cases t.call <;> cases hpc : t.pc <;> first | trivial | exact absurd h (by rw [hpc]; decide)

theorem Nudge.undisturbed {t t' : Task} (h : Nudge t t') {len : UInt32} (hu : t.undisturbed len) :
    t'.undisturbed len := by
  unfold Task.undisturbed at *
  rwa [h.call,h.pc,h.count,h.seen]

section Statements
variable {dev : GlobalfifoDev} {t t' : Task} {c : Choice} {e : Effect} {log : List Transfer}

theorem read_undisturbed {nonblock : Bool} {n : UInt64} (hcall : t.call = .read nonblock n)
    (h : ReadMove nonblock dev t c t' e) : t'.undisturbed (e.lenAfter dev.currentLen) := by
  cases h <;> simp [Task.undisturbed, hcall, Effect.lenAfter]

theorem write_undisturbed {nonblock : Bool} {n : UInt64} {buf : ℕ → UInt8}
    (hcall : t.call = .write nonblock n buf)
    (hA : t.pc.holds = true → t.holding dev.currentLen dev.mem log) (hu : t.undisturbed dev.currentLen)
    (h : WriteMove nonblock buf dev t c t' e) : t'.undisturbed (e.lenAfter dev.currentLen) := by
  cases h <;> rename_i hpc <;> simp only [Task.undisturbed, hcall, hpc] at hu
  case account =>
    simp only [Task.holding, hcall, hpc, Pc.holds, true_implies] at hA
    obtain ⟨hseen,hroom⟩ := hu
    obtain ⟨hbal,hfit,-⟩ := hA
    have hne : dev.currentLen.toNat ≠ capacity := fun heq => hroom (UInt32.toNat_inj.mp heq)
    have hbound := hbal.bound
    simp only [Task.goto, Task.undisturbed, hcall, Effect.lenAfter, len_add_toNat hfit]
    omega
  case proceed hlimit => simpa [Task.undisturbed, hcall, Effect.lenAfter] using hlimit
  case copy | clamp | wake => simpa [Task.undisturbed, hcall, Effect.lenAfter] using hu
  all_goals simp [Task.undisturbed, hcall]

/-- Every statement keeps what its own task knows about the length. -/
theorem statement_undisturbed (hA : t.pc.holds = true → t.holding dev.currentLen dev.mem log)
    (hu : t.undisturbed dev.currentLen) (h : statement dev t c = some (t',e)) :
    t'.undisturbed (e.lenAfter dev.currentLen) := by
  have hd := statement_disciplined h
  obtain ⟨_,_,hcall,h⟩ | ⟨_,_,_,hcall,h⟩ | ⟨_,hcall,-⟩ | ⟨_,hcall,-⟩ := statement_move h
  · exact read_undisturbed hcall h
  · exact write_undisturbed hcall hA hu h
  all_goals simp [Task.undisturbed, hd.call, hcall]

end Statements

/-- Statements of other tasks do not change the data while a task holds the mutex. -/
theorem data_of_other {s : Sys} (hl : LockInv s) {p r : Pid} (hr : r ≠ p) (hh : (s.task r).pc.holds = true)
    {t : Task} {e : Effect} (hd : Disciplined s.dev (s.task p) t e) : e.writes = false := by
  rw [← Bool.not_eq_true]
  intro hw
  have hp := (hl.mutex p).mpr (hd.writes hw)
  rw [(hl.mutex r).mpr hh] at hp
  exact hr (Option.some.inj hp)

/-- What a task knows about the length and the transfers, and forgets with the mutex, survives every step
that its own calls and statements respect. -/
theorem knows_step {P : UInt32 → List Transfer → Task → Prop}
    (hnudge : ∀ {len log t t'}, Nudge t t' → P len log t → P len log t')
    (hfree : ∀ {len log t} len' log', t.pc.holds = false → P len log t → P len' log' t)
    {s s' : Sys} {a : Act} {p : Pid} (h : step s a = some s') (hl : LockInv s)
    (hcall : ∀ c, a = .call p c → P s.dev.currentLen s.log ((s.task p).enter c))
    (hself : ∀ c t e, a = .run p c → statement s.dev (s.task p) c = some (t,e) →
      P (e.lenAfter s.dev.currentLen) (e.logAfter s.log) t)
    (hs : P s.dev.currentLen s.log (s.task p)) : P s'.dev.currentLen s'.log (s'.task p) := by
  obtain ⟨r,c,rfl,-,rfl⟩ | ⟨r,c,t,e,rfl,hst,rfl⟩ | hq := step_cases h
  · by_cases hp : p = r
    · subst hp; rw [setTask_self]; exact hcall c rfl
    · rw [setTask_other s _ hp]; exact hs
  · obtain ⟨hlen,-,hlog⟩ := apply_data r (s.setTask r t) e
    rw [hlen,hlog,setTask_dev,setTask_log]
    by_cases hp : p = r
    · subst hp
      exact hnudge (apply_setTask_self p s t e) (hself c t e rfl hst)
    · apply hnudge (apply_setTask_other hp s t e)
      cases hh : (s.task p).pc.holds with
      | false => exact hfree _ _ hh hs
      | true =>
        have hw := data_of_other hl hp hh (statement_disciplined hst)
        obtain ⟨hlen',-,hlog'⟩ := data_of_not_writes hw s.dev.currentLen s.dev.mem s.log
        rwa [hlen',hlog']
  · rw [hq.currentLen,hq.log]
    exact hnudge (hq.task p) hs

theorem undisturbed_step {s s' : Sys} {a : Act} (h : step s a = some s') (hl : LockInv s) (hs : DataInv s)
    (hu : ∀ p, (s.task p).undisturbed s.dev.currentLen) (p : Pid) :
    (s'.task p).undisturbed s'.dev.currentLen := by
  refine knows_step (P := fun len _ t => t.undisturbed len) (fun hn => hn.undisturbed) ?_ h hl ?_ ?_ (hu p)
  · intro _ _ _ len' _ hh _
    exact undisturbed_of_not_holds hh len'
  · intro c _
    exact undisturbed_of_not_holds (enter_idle _ c).1 _
  · intro c t e _ hst
    exact statement_undisturbed (fun hp => hs.held p ((hl.mutex p).mpr hp)) (hu p) hst

theorem undisturbed_load (p : Pid) : (load.task p).undisturbed load.dev.currentLen :=
  undisturbed_of_not_holds rfl _

/-- The three invariants that every step keeps together. -/
structure Inv (s : Sys) : Prop where
  lock : LockInv s
  data : DataInv s
  undisturbed : ∀ p, (s.task p).undisturbed s.dev.currentLen

theorem inv_load : Inv load := ⟨lockInv_load,dataInv_load,undisturbed_load⟩

theorem inv_step {s s' : Sys} {a : Act} (h : step s a = some s') (hs : Inv s) : Inv s' :=
  ⟨lockInv_step h hs.lock,dataInv_step h hs.lock hs.data,undisturbed_step h hs.lock hs.data hs.undisturbed⟩

theorem inv_reached {acts : List Act} {s : Sys} (h : Reached acts s) : Inv s :=
  run_invariant (fun _ _ _ => inv_step) h inv_load

end ExampleKernel.GlobalFifo
