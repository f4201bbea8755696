import ExampleKernel.GlobalFifo.Refinement

/-! Failed reads and writes leave the queue exactly as it was. A call is committed from its
copy on, when no error exit is left; every statement before that keeps the live bytes, and
touches neither another task nor the list of notified files. -/
namespace ExampleKernel.GlobalFifo
open ExampleKernel.Foundation ExampleKernel.Kernel

/-- The calls that move data. -/
def Call.transfers : Call → Bool
  | .read _ _ => true
  | .write _ _ _ => true
  | _ => false

/-- The call has copied its data and can only succeed. -/
def Task.committed (t : Task) : Prop :=
  t.call.transfers = true ∧ match t.pc with
  | .shift | .account | .wake | .sigio => True
  | .out | .removeWait | .setRunning | .ret => 0 ≤ t.ret
  | _ => False

/-- The effect keeps the live bytes, the transfers, the other tasks and the notified files. -/
structure Harmless (dev : GlobalfifoDev) (e : Effect) : Prop where
  len : e.lenAfter dev.currentLen = dev.currentLen
  live : ∀ i, i < dev.currentLen.toNat → e.memAfter dev.mem i = dev.mem i
  log : ∀ log, e.logAfter log = log
  silent : ∀ p s, (e.apply p s).task = s.task ∧ (e.apply p s).sigio = s.sigio

theorem harmless_of_not_writes {dev : GlobalfifoDev} {e : Effect} (hw : e.writes = false)
    (hs : ∀ p s, (e.apply p s).task = s.task ∧ (e.apply p s).sigio = s.sigio) : Harmless dev e where
  len := (data_of_not_writes hw dev.currentLen dev.mem []).1
  live := fun i _ => congrFun (data_of_not_writes hw dev.currentLen dev.mem []).2.1 i
  log := fun log => (data_of_not_writes hw dev.currentLen dev.mem log).2.2
  silent := hs

section Statements
variable {dev : GlobalfifoDev} {t t' : Task} {c : Choice} {e : Effect}

theorem intOf_nonneg {n : UInt64} {k limit : ℕ} (h : n.toNat = min k limit) (hl : limit ≤ capacity) :
    0 ≤ intOf n.toNat := by
  rw [intOf_count h (by omega)]
  exact Int.natCast_nonneg _

theorem committed_exit {value : ℤ} (hcall : t.call.transfers = true) (h : 0 ≤ value) :
    (t.exit value .out).committed := ⟨hcall,h⟩

theorem read_harmless {nonblock : Bool} {n : UInt64} (hcall : t.call = .read nonblock n) (hF : t.framed)
    (h : ReadMove nonblock dev t c t' e) (hc : ¬ t'.committed) : Harmless dev e := by
  have hcalls : t.call.transfers = true := by rw [hcall]; rfl
  cases h <;> rename_i hpc <;> simp only [Task.framed, Task.progress, hcall, hpc] at hF
  case wake => exact (hc (committed_exit hcalls (intOf_nonneg hF.1 (by omega)))).elim
  all_goals
    first
    | exact harmless_of_not_writes rfl fun _ _ => ⟨rfl,rfl⟩
    | exact (hc ⟨hcalls,trivial⟩).elim

theorem write_harmless {nonblock : Bool} {n : UInt64} {buf : ℕ → UInt8}
    (hcall : t.call = .write nonblock n buf) (hF : t.framed)
    (h : WriteMove nonblock buf dev t c t' e) (hc : ¬ t'.committed) : Harmless dev e := by
  have hcalls : t.call.transfers = true := by rw [hcall]; rfl
  cases h <;> rename_i hpc <;> simp only [Task.framed, Task.progress, hcall, hpc] at hF
  case fault =>
    -- the dirtied cells lie behind the live bytes
    exact ⟨rfl,fun i hi => copyFromUserFault_outside _ _ _ (by omega) (.inl hi),fun _ => rfl,
      fun _ _ => ⟨rfl,rfl⟩⟩
  case unwatched | sigio => exact (hc (committed_exit hcalls (intOf_nonneg hF.1 (by omega)))).elim
  all_goals
    first
    | exact harmless_of_not_writes rfl fun _ _ => ⟨rfl,rfl⟩
    | exact (hc ⟨hcalls,trivial⟩).elim

/-- A statement after which the call can still fail is harmless. -/
theorem statement_harmless (hcall : t.call.transfers = true) (hF : t.framed)
    (h : statement dev t c = some (t',e)) (hc : ¬ t'.committed) : Harmless dev e := by
  obtain ⟨_,_,hcall',h⟩ | ⟨_,_,_,hcall',h⟩ | ⟨_,hcall',-⟩ | ⟨_,hcall',-⟩ := statement_move h
  · exact read_harmless hcall' hF h hc
  · exact write_harmless hcall' hF h hc
  all_goals rw [hcall'] at hcall; contradiction

/-- A committed call stays committed until it is over. -/
theorem statement_committed (hF : t.framed) (h : statement dev t c = some (t',e)) (hc : t.committed) :
    t'.committed ∨ t'.pc = .idle := by
  obtain ⟨hcalls,hc⟩ := hc
  obtain ⟨_,_,hcall,h⟩ | ⟨_,_,_,hcall,h⟩ | ⟨_,hcall,-⟩ | ⟨_,hcall,-⟩ := statement_move h
  case inl | inr.inl =>
    cases h <;> rename_i hpc <;> rw [hpc] at hc <;> (try contradiction) <;>
      simp only [Task.framed, Task.progress, hcall, hpc] at hF
    all_goals
      first
      | exact .inr rfl
      | exact .inl ⟨hcalls,hc⟩
      | exact .inl (committed_exit hcalls (intOf_nonneg hF.1 (by omega)))
  all_goals rw [hcall] at hcalls; contradiction

/-- The bytes that a statement shows to the caller are the head of the queue. -/
theorem statement_shows {log : List Transfer} (hA : t.pc.holds = true → t.holding dev.currentLen dev.mem log)
    (h : statement dev t c = some (t',e)) (hu : t'.ubuf ≠ t.ubuf) :
    t'.ubuf <+: slice dev.mem 0 dev.currentLen.toNat ∧ Balanced dev.currentLen dev.mem log := by
  have hhead : ∀ {n k : ℕ}, n ≤ dev.currentLen.toNat → k ≤ n →
      slice dev.mem 0 k <+: slice dev.mem 0 dev.currentLen.toNat := by
    intro n k hn hk
    rw [slice_split dev.mem 0 (by omega : k ≤ dev.currentLen.toNat)]
    exact List.prefix_append _ _
  obtain ⟨_,_,hcall,h⟩ | ⟨_,_,_,-,h⟩ | ⟨_,-,h⟩ | ⟨_,-,h⟩ := statement_move h
  case inl =>
    cases h <;> rename_i hpc
    case fault hk =>
      simp only [Task.holding, hcall, hpc, Pc.holds, true_implies] at hA
      exact ⟨hhead (by omega) hk.le,hA.1⟩
    case copy =>
      simp only [Task.holding, hcall, hpc, Pc.holds, true_implies] at hA
      exact ⟨hhead (by omega) le_rfl,hA.1⟩
    all_goals exact absurd rfl hu
  all_goals cases h <;> exact absurd rfl hu

end Statements

/-- Without a new call, a committed task stays committed or is idle in the end. -/
theorem committed_run {p : Pid} {later : List Act} {s s' : Sys} (hl : LockInv s) (hd : DataInv s)
    (hsame : ∀ c, .call p c ∉ later) (h : run step s later = some s')
    (hc : (s.task p).committed ∨ (s.task p).pc = .idle) :
    (s'.task p).committed ∨ (s'.task p).pc = .idle := by
  induction later generalizing s with
  | nil => cases h; exact hc
  | cons a later ih =>
    obtain ⟨m,hm,hrest⟩ := run_cons_eq_some.mp h
    refine ih (lockInv_step hm hl) (dataInv_step hm hl hd)
      (fun c hc => hsame c (List.mem_cons_of_mem _ hc)) hrest ?_
    refine task_step (P := fun t => t.committed ∨ t.pc = .idle) (fun hn hc => ?_) hm ?_ ?_ hc
    · rwa [Task.committed,hn.call,hn.pc,hn.ret]
    · rintro c rfl
      exact absurd List.mem_cons_self (hsame c)
    · intro c t e _ hst
      obtain hc | hidle := hc
      · exact statement_committed (hd.framed p) hst hc
      · cases hcall : (s.task p).call <;> simp [statement, hcall, globalfifoRead, globalfifoWrite,
          globalfifoIoctl, doPoll, globalfifoPoll, hidle] at hst

/-- No step of a read or write that fails in the end changes the queue, wakes or signals another
task, or completes a transfer; what it showed to its caller is delivered again, and what it
copied in is never delivered. -/
theorem failed_call_harmless {acts later : List Act} {s s1 s2 : Sys} {p : Pid} {c : Choice}
    (h : Reached acts s) (hstep : step s (.run p c) = some s1) (hrun : run step s1 later = some s2)
    (hsame : ∀ d, .call p d ∉ later) (hcall : (s2.task p).call.transfers = true)
    (hpc : (s2.task p).pc = .ret) (hret : (s2.task p).ret < 0) :
    s1.dev.currentLen = s.dev.currentLen ∧
    (∀ i, i < s.dev.currentLen.toNat → s1.dev.mem i = s.dev.mem i) ∧
    (∀ r, r ≠ p → s1.task r = s.task r) ∧ s1.sigio = s.sigio ∧ s1.log = s.log ∧
    (∀ more s3, run step s1 more = some s3 → s3.dev.mutex = none →
      BoundedQueue.accepted s3.log =
        BoundedQueue.delivered s3.log ++ slice s3.dev.mem 0 s3.dev.currentLen.toNat) ∧
    ((s1.task p).ubuf ≠ (s.task p).ubuf → ∀ more s3 puts xs, run step s1 more = some s3 →
      s3.dev.mutex = none → (∀ t ∈ puts, ∃ ys, t = .put ys) → s3.log = s1.log ++ puts ++ [.get xs] →
      xs <+: (s1.task p).ubuf ∨ (s1.task p).ubuf <+: xs) := by
  have h1 : Reached (acts ++ [.run p c]) s1 := run_concat_eq_some.mpr ⟨s,h,hstep⟩
  have hl := lockInv_reached h
  have hd := dataInv_reached h
  have later_balanced : ∀ {more s3}, run step s1 more = some s3 → s3.dev.mutex = none →
      Balanced s3.dev.currentLen s3.dev.mem s3.log := fun hm hfree =>
    (dataInv_reached (run_append_eq_some.mpr ⟨s1,h1,hm⟩)).free hfree
  have huncommitted : ¬ (s1.task p).committed := by
    intro hc
    obtain ⟨-,hc⟩ | hidle := committed_run (lockInv_reached h1) (dataInv_reached h1) hsame hrun (.inl hc)
    · rw [hpc] at hc
      exact absurd hc (by omega)
    · rw [hpc] at hidle
      contradiction
  simp only [step, Option.map_eq_some_iff] at hstep
  obtain ⟨⟨t,e⟩,hst,rfl⟩ := hstep
  have hself := apply_setTask_self p s t e
  have hheld : (s.task p).pc.holds = true → (s.task p).holding s.dev.currentLen s.dev.mem s.log :=
    fun hh => hd.held p ((hl.mutex p).mpr hh)
  have hcalls : (s.task p).call.transfers = true := by
    rwa [call_run hsame hrun,hself.call,(statement_disciplined hst).call] at hcall
  have hharm := statement_harmless hcalls (hd.framed p) hst (by
    rwa [Task.committed,hself.call,hself.pc,hself.ret] at huncommitted)
  obtain ⟨hlen,hmem,hlog⟩ := apply_data p (s.setTask p t) e
  obtain ⟨htask,hsigio⟩ := hharm.silent p (s.setTask p t)
  refine ⟨hlen.trans hharm.len,fun i hi => ?_,fun r hr => ?_,hsigio,hlog.trans (hharm.log _),
    fun more s3 hm hfree => ?_,fun hu more s3 puts xs hm hfree hputs hlog3 => ?_⟩
  · rw [hmem]; exact hharm.live i hi
  · rw [htask,setTask_other s t hr]
  · exact (BoundedQueue.conservation (later_balanced hm hfree).replay).1
  · rw [hself.ubuf] at hu ⊢
    obtain ⟨hshown,hbal⟩ := statement_shows hheld hst hu
    have hreplay := (later_balanced hm hfree).replay
    rw [hlog3,hlog,hharm.log] at hreplay
    obtain hxs | hxs := BoundedQueue.next_get hbal.replay hputs hreplay
    · exact List.prefix_or_prefix_of_prefix hxs hshown
    · exact .inr (hshown.trans hxs)

/-- A read of two bytes that faults after the first one. -/
theorem failed_call_harmless_fault : ∃ acts later s s1 s2, Reached acts s ∧
    step s (.run 2 (.fault 1 false)) = some s1 ∧ run step s1 later = some s2 ∧
    (s2.task 2).ret = -efault ∧ s1.dev.currentLen = s.dev.currentLen ∧ s1.log = s.log := by
  obtain ⟨s,hs,hp⟩ := exists_of_run_any step load
    (.call 1 (.write false 2 fun _ => 7) :: List.replicate 12 (.run 1 .done) ++
      .call 2 (.read false 5) :: List.replicate 4 (.run 2 .done))
    (fun s => (run step s (.run 2 (.fault 1 false) :: List.replicate 3 (.run 2 .done))).any fun s =>
      (s.task 2).call.transfers && (s.task 2).pc = .ret && (s.task 2).ret = -efault) (by decide)
  obtain ⟨s2,hs2,hp2⟩ := exists_of_run_any _ _ _ _ hp
  obtain ⟨s1,hs1,hrun⟩ := run_cons_eq_some.mp hs2
  simp only [Bool.and_eq_true, decide_eq_true_eq] at hp2
  obtain ⟨⟨hcall,hpc⟩,hret⟩ := hp2
  obtain ⟨hlen,-,-,-,hlog,-⟩ := failed_call_harmless hs hs1 hrun (by simp) hcall hpc (by simp [hret, efault])
  exact ⟨_,_,s,s1,s2,hs,hs1,hrun,hret,hlen,hlog⟩

end ExampleKernel.GlobalFifo
