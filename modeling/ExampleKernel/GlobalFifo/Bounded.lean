import ExampleKernel.GlobalFifo.History

/-! globalfifo is a bounded byte queue: no byte is lost, duplicated or reordered over any
interleaving, every transfer has the length it should have, and every access to the array
stays inside it. -/
namespace ExampleKernel.GlobalFifo
open ExampleKernel.Foundation ExampleKernel.Kernel

/-- The windows of `mem`, as offset and length, that the next statement of a task may access. -/
def Task.accesses (dev : GlobalfifoDev) (t : Task) : List (ℕ × ℕ) :=
  match t.call, t.pc with
  | .read _ _, .copy => [(0,t.count.toNat)]
  | .read _ _, .shift =>
    [(0,(dev.currentLen.toUInt64-t.count).toNat),
      (t.count.toNat,(dev.currentLen.toUInt64-t.count).toNat)]
  | .write _ _ _, .copy => [(dev.currentLen.toNat,t.count.toNat)]
  | .ioctl _, .ioctlMemset => [(0,globalfifoSize.toNat)]
  | _, _ => []

/-- The cell lies in one of the windows. -/
def Within (ws : List (ℕ × ℕ)) (i : ℕ) : Prop := ∃ w ∈ ws, w.1 ≤ i ∧ i < w.1+w.2

theorem outside_of_not_within {off n i : ℕ} {ws : List (ℕ × ℕ)} (h : ¬ Within ((off,n)::ws) i) :
    i < off ∨ off+n ≤ i := by
  by_contra hin
  push Not at hin
  exact h ⟨(off,n),List.mem_cons_self,hin⟩

/-- A statement changes no cell outside the windows it may access. -/
theorem statement_footprint {dev : GlobalfifoDev} {t t' : Task} {c : Choice} {e : Effect}
    (h : statement dev t c = some (t',e)) {i : ℕ} (hi : ¬ Within (t.accesses dev) i) :
    e.memAfter dev.mem i = dev.mem i := by
  cases hw : e.writes with
  | false => rw [(data_of_not_writes hw dev.currentLen dev.mem []).2.1]
  | true =>
    obtain ⟨_,_,hcall,h⟩ | ⟨_,_,_,hcall,h⟩ | ⟨_,hcall,h⟩ | ⟨_,hcall,h⟩ := statement_move h
    all_goals cases h <;> rename_i hpc <;> simp only [Task.accesses, hcall, hpc] at hi
    all_goals simp only [Effect.memAfter, memmove]
    all_goals
      first
      | exact blit_outside _ _ _ _ (outside_of_not_within hi)
      | exact copyFromUserFault_outside _ _ _ (by omega) (outside_of_not_within hi)

theorem within_head {off n i : ℕ} (ws : List (ℕ × ℕ)) (h : i < n) : Within ((off,n)::ws) (off+i) :=
  ⟨(off,n),List.mem_cons_self,by simp [h]⟩

theorem memAfter_congr {e : Effect} (h : ∀ m, e ≠ .store m) {m m' : ℕ → UInt8} {i : ℕ} (hi : m i = m' i) :
    e.memAfter m i = e.memAfter m' i := by
  cases e with
  | store n => exact absurd rfl (h n)
  | _ => exact hi

/-- What a statement does in the caller and in a cell that two memories share depends on no cell
outside the windows it may access. -/
theorem statement_reads {dev : GlobalfifoDev} {t t' : Task} {mem : ℕ → UInt8} {c : Choice} {e : Effect}
    (h : ∀ i, Within (t.accesses dev) i → mem i = dev.mem i) (hst : statement dev t c = some (t',e)) :
    ∃ e', statement (dev.withData dev.currentLen mem) t c = some (t',e') ∧
      ∀ i, mem i = dev.mem i → e'.memAfter mem i = e.memAfter dev.mem i := by
  cases hcall : t.call <;> cases hpc : t.pc <;>
    simp only [statement, hcall, globalfifoRead, globalfifoWrite, globalfifoIoctl, doPoll,
      globalfifoPoll, pollWait, mutexLock_withData, hpc, reduceCtorEq] at hst ⊢
  case read.copy nonblock n =>
    simp only [Task.accesses, hcall, hpc] at h
    have hs : ∀ k, k ≤ t.count.toNat → slice mem 0 k = slice dev.mem 0 k := by
      intro k hk
      exact slice_congr fun i hi => h _ (within_head [] (by omega))
    cases c with
    | fault k zeroed =>
      simp only [Option.ite_none_right_eq_some, Option.some.injEq, Prod.mk.injEq] at hst
      obtain ⟨hk,rfl,rfl⟩ := hst
      exact ⟨.none,by simp [GlobalfifoDev.withData, hk, hs k hk.le],fun _ hi => hi⟩
    | done | giveUp =>
      cases hst
      exact ⟨.none,by simp [GlobalfifoDev.withData, hs _ le_rfl],fun _ hi => hi⟩
  case read.shift nonblock n =>
    simp only [Task.accesses, hcall, hpc] at h
    cases hst
    refine ⟨_,rfl,fun i hi => ?_⟩
    simp only [Effect.memAfter, memmove]
    refine blit_congr 0 hi fun j hj => h _ ?_
    exact ⟨_,List.mem_cons_of_mem _ List.mem_cons_self,Nat.le_add_right _ _,Nat.add_lt_add_left hj _⟩
  case write.copy nonblock n buf =>
    cases c with
    | fault k zeroed =>
      simp only [Option.ite_none_right_eq_some, Option.some.injEq, Prod.mk.injEq] at hst
      obtain ⟨hk,rfl,rfl⟩ := hst
      exact ⟨.store _,by simp only [if_pos hk]; rfl,fun i hi => copyFromUserFault_congr _ _ _ _ _ hi⟩
    | done | giveUp =>
      cases hst
      exact ⟨.store _,rfl,fun i hi => blit_congr _ hi fun _ _ => rfl⟩
  case ioctl.ioctlMemset cmd =>
    cases hst
    refine ⟨_,rfl,fun i hi => ?_⟩
    simp only [Effect.memAfter]
    exact blit_congr 0 hi fun _ _ => rfl
  all_goals
    refine ⟨e,hst,fun i hi => memAfter_congr (fun m hm => ?_) hi⟩
    subst hm
    try simp only [mutexLock, enterSchedule, leaveSchedule] at hst
    repeat' split at hst
  all_goals cases hst

/-- Inside every interleaving the accessed windows lie in the array. -/
theorem accesses_bounded {acts : List Act} {s : Sys} (h : Reached acts s) (p : Pid) {w : ℕ × ℕ}
    (hw : w ∈ (s.task p).accesses s.dev) : w.1+w.2 ≤ capacity := by
  have hl := lockInv_reached h
  have hs := dataInv_reached h
  have hheld : (s.task p).pc.holds = true → (s.task p).holding s.dev.currentLen s.dev.mem s.log :=
    fun hp => hs.held p ((hl.mutex p).mpr hp)
  unfold Task.accesses at hw
  unfold Task.holding at hheld
  split at hw <;> rename_i hcall hpc
  all_goals simp only [hcall, hpc, Pc.holds, true_implies] at hheld
  · simp only [List.mem_singleton] at hw
    have hb := hheld.1.bound
    subst hw
    simp only
    omega
  · have hb := hheld.1.bound
    have hn := toUInt64_sub_toNat hheld.2.1
    simp only [List.mem_cons, List.not_mem_nil, or_false] at hw
    obtain rfl | rfl := hw <;> (simp only; omega)
  · simp only [List.mem_singleton] at hw
    have hb := hheld.1.bound
    subst hw
    simp only
    omega
  · simp only [List.mem_singleton] at hw
    subst hw
    simp [globalfifoSize_toNat]
  · simp at hw

/-- Every returned read, write and `FIFO_CLEAR` is booked once, a successful one with its bytes. -/
theorem returned_booked {m : Machine} {acts : List Act} (h : run Machine.step Machine.load acts = some m) {p : Pid}
    (hret : (m.sys.task p).pc = .ret) :
    (∀ nonblock n, (m.sys.task p).call = .read nonblock n →
      m.Booked p (if 0 ≤ (m.sys.task p).ret then some (.get (m.sys.task p).ubuf) else none)) ∧
    (∀ nonblock n buf, (m.sys.task p).call = .write nonblock n buf → m.Booked p
      (if 0 ≤ (m.sys.task p).ret then some (.put (slice buf 0 (m.sys.task p).ret.toNat)) else none)) ∧
    ((m.sys.task p).call = .ioctl fifoClear → (m.sys.task p).ret = 0 ∧ m.Booked p (some .clear)) := by
  have hbooked := booked_of_returned (sound_reached h) hret
  have hreached : Reached acts m.sys := (run_sys Machine.load acts).symm.trans (congrArg _ h)
  refine ⟨fun nonblock n hcall => ?_,fun nonblock n buf hcall => ?_,fun hcall => ?_⟩
  · simp only [Task.answer, hcall, apply_ite QueueOp.transfer] at hbooked
    simpa [QueueOp.transfer] using hbooked
  · simp only [Task.answer, hcall, apply_ite QueueOp.transfer] at hbooked
    simpa [QueueOp.transfer] using hbooked
  · have hzero := cleared_reached hreached p hcall hret
    simp only [Task.answer, hcall, hzero] at hbooked
    exact ⟨hzero,hbooked⟩

/-- globalfifo is a bounded byte queue under every interleaving. `log` lists the successful transfers in
mutex order: it is what the book of the calls says, in which a returned call stands once, under the time at
which it was made. `seen` is the queue length on entry to the copy. The last two parts say that statements
neither change nor depend on what lies behind the array. -/
theorem bounded_queue {acts : List Act} {s : Sys} (h : Reached acts s) :
    (s.dev.mutex = none → s.dev.currentLen.toNat ≤ capacity ∧
      BoundedQueue.accepted s.log =
        BoundedQueue.delivered s.log ++ slice s.dev.mem 0 s.dev.currentLen.toNat) ∧
    (∃ m, run Machine.step Machine.load acts = some m ∧ m.sys = s ∧ s.log = transfers m.book ∧
      ∀ p, (s.task p).pc = .ret →
        (∀ nonblock n, (s.task p).call = .read nonblock n →
          m.Booked p (if 0 ≤ (s.task p).ret then some (.get (s.task p).ubuf) else none)) ∧
        (∀ nonblock n buf, (s.task p).call = .write nonblock n buf → m.Booked p
          (if 0 ≤ (s.task p).ret then some (.put (slice buf 0 (s.task p).ret.toNat)) else none)) ∧
        ((s.task p).call = .ioctl fifoClear → (s.task p).ret = 0 ∧ m.Booked p (some .clear))) ∧
    (∀ p nonblock n, (s.task p).call = .read nonblock n → (s.task p).pc = .ret → 0 ≤ (s.task p).ret →
      (s.task p).ret = min n.toNat (s.task p).seen ∧ (s.task p).ubuf.length = (s.task p).ret) ∧
    (∀ p nonblock n buf, (s.task p).call = .write nonblock n buf → (s.task p).pc = .ret →
      0 ≤ (s.task p).ret → (s.task p).ret = min n.toNat (capacity-(s.task p).seen)) ∧
    (∀ p, ∀ w ∈ (s.task p).accesses s.dev, w.1+w.2 ≤ capacity) ∧
    (∀ p c t e i, statement s.dev (s.task p) c = some (t,e) → capacity ≤ i →
      e.memAfter s.dev.mem i = s.dev.mem i) ∧
    (∀ p c t e mem, (∀ i, i < capacity → mem i = s.dev.mem i) → statement s.dev (s.task p) c = some (t,e) →
      ∃ e', statement (s.dev.withData s.dev.currentLen mem) (s.task p) c = some (t,e') ∧
        ∀ i, i < capacity → e'.memAfter mem i = e.memAfter s.dev.mem i) := by
  have hs := dataInv_reached h
  refine ⟨fun hfree => ?_,?_,?_,?_,fun p w => accesses_bounded h p,?_,?_⟩
  · obtain ⟨hbound,hreplay⟩ := hs.free hfree
    exact ⟨hbound,(BoundedQueue.conservation hreplay).1⟩
  · obtain ⟨m,hm,rfl⟩ := machine_of_run (m := Machine.load) h
    exact ⟨m,hm,rfl,(sound_reached hm).log,fun p hret => returned_booked hm hret⟩
  · intro p nonblock n hcall hpc hret
    have hF := hs.framed p
    simp only [Task.framed, hcall, Task.progress, hpc] at hF
    exact_mod_cast hF hret
  · intro p nonblock n buf hcall hpc hret
    have hF := hs.framed p
    simp only [Task.framed, hcall, Task.progress, hpc] at hF
    exact_mod_cast (hF hret).1
  · intro p c t e i hst hi
    refine statement_footprint hst ?_
    rintro ⟨w,hw,-,hlt⟩
    have hbound := accesses_bounded h p hw
    omega
  · intro p c t e mem hmem hst
    have hread : ∀ i, Within ((s.task p).accesses s.dev) i → mem i = s.dev.mem i := by
      rintro i ⟨w,hw,-,hlt⟩
      exact hmem i (hlt.trans_le (accesses_bounded h p hw))
    obtain ⟨e',he',hsame⟩ := statement_reads hread hst
    exact ⟨e',he',fun i hi => hsame i (hmem i hi)⟩

/-- A read that returns after one write, with both lengths as promised, and its place in the book. -/
theorem bounded_queue_short_read : ∃ acts s, Reached acts s ∧
    BoundedQueue.accepted s.log =
      BoundedQueue.delivered s.log ++ slice s.dev.mem 0 s.dev.currentLen.toNat ∧
    (s.task 2).ret = 2 ∧ (s.task 2).ret = min 5 (s.task 2).seen ∧
    ∃ m : Machine, m.sys = s ∧ m.Booked 2 (some (.get (s.task 2).ubuf)) := by
  obtain ⟨s,hs,hp⟩ := exists_of_run_any step load
    (.call 1 (.write false 2 fun _ => 7) :: List.replicate 12 (.run 1 .done) ++
      .call 2 (.read false 5) :: List.replicate 11 (.run 2 .done))
    (fun s => match (s.task 2).call with
      | .read _ n => n = 5 ∧ s.dev.mutex = none ∧ (s.task 2).pc = .ret ∧ (s.task 2).ret = 2
      | _ => false) (by decide)
  obtain ⟨hfifo,⟨m,-,hsys,-,hbooked⟩,hread,-⟩ := bounded_queue hs
  split at hp
  · rename_i nonblock n hcall
    simp only [decide_eq_true_eq] at hp
    obtain ⟨rfl,hfree,hpc,hret⟩ := hp
    have hbook := (hbooked 2 hpc).1 _ _ hcall
    rw [if_pos (by omega)] at hbook
    exact ⟨_,s,hs,(hfifo hfree).2,hret,(hread 2 _ _ hcall hpc (by omega)).1,m,hsys,hbook⟩
  · contradiction

end ExampleKernel.GlobalFifo
