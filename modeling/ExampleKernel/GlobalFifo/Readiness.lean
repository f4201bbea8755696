import ExampleKernel.GlobalFifo.Failure
import ExampleKernel.GlobalFifo.History
import ExampleKernel.GlobalFifo.Wakeup

/-! Readiness: what `globalfifo_poll` reports against what the non-blocking operations do in the same
state, and against the last transfer. Three tests of the length decide; they agree since it stays in bounds. -/
namespace ExampleKernel.GlobalFifo
open ExampleKernel.Foundation ExampleKernel.Kernel

/-- The calls that never sleep in the driver. -/
def Call.nonblocking : Call → Bool
  | .read nonblock _ => nonblock
  | .write nonblock _ _ => nonblock
  | .ioctl _ => false
  | .poll _ => true

/-- At the return of the file operation, for `globalfifo_poll` in the first pass of the poll core. -/
def Task.returned (t : Task) : Prop :=
  match t.call with
  | .poll _ => t.pc = .pollRet ∧ t.polling = false
  | _ => t.pc = .ret

/-- `p` issues the call in `s`, where it takes the mutex at once, and returns in `s'`. Other tasks may act
in between; no copy of `p` faults. -/
structure Serves (s : Sys) (p : Pid) (c : Call) (s' : Sys) : Prop where
  run : ∃ later, run step s (.call p c :: .run p .done :: later) = some s' ∧
    (∀ k zeroed, .run p (.fault k zeroed) ∉ later) ∧ ∀ d, .call p d ∉ later
  returned : (s'.task p).returned

/-- A read (`r`) or write (`w`) that takes the mutex at the length `start`. -/
def Task.attempts (q : Side) (start len : UInt32) (t : Task) : Prop :=
  match t.pc with
  | .addWait | .test => len = start
  | .clamp | .copy => len = start ∧ start ≠ q.limit
  | .shift => q = .r ∧ t.seen = start.toNat ∧ start ≠ q.limit
  | .account | .wake => t.seen = start.toNat ∧ start ≠ q.limit
  | .sigio => q = .w ∧ t.seen = start.toNat ∧ start ≠ q.limit
  | .out | .removeWait | .setRunning | .ret =>
    if start = q.limit then t.ret = -eagain else 0 ≤ t.ret ∧ t.seen = start.toNat
  | .idle => True
  | _ => False

/-- A poll that takes the mutex at the length `start`, up to its first return. -/
def Task.surveys (start len : UInt32) (t : Task) : Prop :=
  t.polling = false → match t.pc with
    | .pollWaitR | .pollWaitW | .pollTestR => len = start
    | .pollTestW => len = start ∧ t.mask.pollin = decide (start ≠ 0)
    | .pollUnlock | .pollRet => t.mask = ⟨start ≠ 0,start ≠ globalfifoSize⟩
    | .idle => True
    | _ => False

/-- What a non-blocking call has found out since it took the mutex at the length `start`. -/
def Task.answers (start len : UInt32) (t : Task) : Prop :=
  match t.call with
  | .read true _ => t.attempts .r start len
  | .write true _ _ => t.attempts .w start len
  | .poll _ => t.surveys start len
  | _ => True

section Statements
variable {start : UInt32} {dev : GlobalfifoDev} {t t' : Task} {c : Choice} {e : Effect}

theorem read_attempts {n : UInt64} (hcall : t.call = .read true n) (hF : t.framed)
    (ha : t.attempts .r start dev.currentLen) (hc : ∀ k zeroed, c ≠ .fault k zeroed)
    (h : ReadMove true dev t c t' e) : t'.attempts .r start (e.lenAfter dev.currentLen) := by
  cases h <;> rename_i hpc <;> simp only [Task.attempts, hpc] at ha <;>
    simp only [Task.framed, Task.progress, hcall, hpc] at hF
  case fault k zeroed hfault _ => exact absurd hfault (hc k zeroed)
  case wait hnb => contradiction
  case copy => exact ⟨rfl,congrArg UInt32.toNat ha.1,ha.2⟩
  case shift => exact ha.2
  case wake =>
    simp only [Task.attempts, Task.exit, if_neg ha.2]
    exact ⟨intOf_nonneg hF.1 hF.2.2,ha.1⟩
  case again hlimit _ => exact (if_pos (ha ▸ hlimit)).mpr rfl
  case proceed hlimit => exact ⟨ha,ha ▸ hlimit⟩
  case ret => trivial
  all_goals exact ha

theorem write_attempts {n : UInt64} {buf : ℕ → UInt8} (hcall : t.call = .write true n buf) (hF : t.framed)
    (ha : t.attempts .w start dev.currentLen) (hc : ∀ k zeroed, c ≠ .fault k zeroed)
    (h : WriteMove true buf dev t c t' e) : t'.attempts .w start (e.lenAfter dev.currentLen) := by
  cases h <;> rename_i hpc <;> simp only [Task.attempts, hpc] at ha <;>
    simp only [Task.framed, Task.progress, hcall, hpc] at hF
  case fault k zeroed hfault _ => exact absurd hfault (hc k zeroed)
  case wait hnb => contradiction
  case copy => exact ⟨congrArg UInt32.toNat ha.1,ha.2⟩
  case wake => exact ⟨rfl,ha⟩
  case unwatched | sigio =>
    simp only [Task.attempts, Task.exit, if_neg ha.2.2]
    exact ⟨intOf_nonneg hF.1 (Nat.sub_le _ _),ha.2.1⟩
  case again hlimit _ => exact (if_pos (ha ▸ hlimit)).mpr rfl
  case proceed hlimit => exact ⟨ha,ha ▸ hlimit⟩
  case ret => trivial
  all_goals exact ha

theorem poll_surveys {events : Events} (ha : t.surveys start dev.currentLen)
    (h : PollMove events dev t c t' e) : t'.surveys start (e.lenAfter dev.currentLen) := by
  cases h <;> rename_i hpc <;> simp only [Task.surveys, hpc] at ha <;> intro hpolling <;>
    simp_all [Effect.lenAfter]

theorem statement_answers (hF : t.framed) (ha : t.answers start dev.currentLen)
    (hc : ∀ k zeroed, c ≠ .fault k zeroed) (h : statement dev t c = some (t',e)) :
    t'.answers start (e.lenAfter dev.currentLen) := by
  have hd := (statement_disciplined h).call
  unfold Task.answers at *
  rw [hd]
  obtain ⟨nonblock,_,hcall,h⟩ | ⟨nonblock,_,_,hcall,h⟩ | ⟨_,hcall,-⟩ | ⟨_,hcall,h⟩ := statement_move h <;>
    simp only [hcall] at ha ⊢
  · cases nonblock with
    | false => trivial
    | true => exact read_attempts hcall hF ha hc h
  · cases nonblock with
    | false => trivial
    | true => exact write_attempts hcall hF ha hc h
  · exact poll_surveys ha h

end Statements

theorem Nudge.answers {t t' : Task} (h : Nudge t t') {start len : UInt32} (ha : t.answers start len) :
    t'.answers start len := by
  unfold Task.answers Task.attempts Task.surveys at *
  rwa [h.call,h.pc,h.ret,h.seen,h.mask,h.polling]

/-- Without the mutex a call has nothing left to find out. -/
theorem answers_of_not_holds {t : Task} {start len : UInt32} (len' : UInt32) (hh : t.pc.holds = false)
    (ha : t.answers start len) : t.answers start len' := by
  unfold Task.answers Task.attempts Task.surveys at *
  cases hpc : t.pc <;> first | exact absurd hh (by rw [hpc]; decide) | simpa only [hpc] using ha

/-- The first statement after `mutex_lock`. -/
def Call.first : Call → Pc
  | .poll _ => .pollWaitR
  | _ => .addWait

/-- The state in which `p` has just taken the mutex for the call. -/
def Sys.begun (s : Sys) (p : Pid) (c : Call) : Sys :=
  Effect.mutexLock.apply p (s.setTask p (((s.task p).enter c).goto c.first))

theorem run_begun {s s' : Sys} {p : Pid} {c : Call} {later : List Act} (hc : c.nonblocking = true) :
    run step s (.call p c :: .run p .done :: later) = some s' ↔
      (s.task p).pc = .idle ∧ s.dev.mutex = none ∧ run step (s.begun p c) later = some s' := by
  have hlock : ∀ dev, statement dev ((s.task p).enter c) .done = mutexLock dev ((s.task p).enter c) c.first := by
    intro dev
    cases c <;> first | rfl | cases hc
  by_cases hidle : (s.task p).pc = .idle <;> by_cases hfree : s.dev.mutex = none
  all_goals simp [run_cons_eq_some, step, hidle, hlock, mutexLock, hfree, Sys.begun]

theorem begun_answers {s : Sys} {p : Pid} {c : Call} :
    ((s.begun p c).task p).answers s.dev.currentLen (s.begun p c).dev.currentLen := by
  change (((s.setTask p _).task p)).answers s.dev.currentLen s.dev.currentLen
  rw [setTask_self]
  cases c with
  | read nonblock n => cases nonblock <;> [trivial; exact rfl]
  | write nonblock n buf => cases nonblock <;> [trivial; exact rfl]
  | ioctl cmd => trivial
  | poll events => exact fun _ => rfl

/-- While no copy of `p` faults and `p` makes no other call, it keeps what it has found out. -/
theorem answers_run {s s' : Sys} {p : Pid} {start : UInt32} {later : List Act} (hI : Inv s)
    (h : run step s later = some s') (hfault : ∀ k zeroed, .run p (.fault k zeroed) ∉ later)
    (hcalls : ∀ d, .call p d ∉ later) (ha : (s.task p).answers start s.dev.currentLen) :
    (s'.task p).answers start s'.dev.currentLen := by
  induction later generalizing s with
  | nil => cases h; exact ha
  | cons a later ih =>
    obtain ⟨m,hm,hrest⟩ := run_cons_eq_some.mp h
    refine ih (inv_step hm hI) hrest (fun k zeroed hk => hfault k zeroed (List.mem_cons_of_mem _ hk))
      (fun d hd => hcalls d (List.mem_cons_of_mem _ hd)) ?_
    refine knows_step (P := fun len _ t => t.answers start len) (fun hn => hn.answers)
      (fun len' _ hh ha => answers_of_not_holds len' hh ha) hm hI.lock ?_ ?_ ha
    · rintro d rfl
      exact absurd List.mem_cons_self (hcalls d)
    · rintro c t e rfl hst
      refine statement_answers (hI.data.framed p) ha ?_ hst
      rintro k zeroed rfl
      exact hfault k zeroed List.mem_cons_self

section Progress

/-- How many statements are left until the return, on the way of a call that does not sleep. -/
def Pc.left : Pc → ℕ
  | .addWait => 11
  | .test => 10
  | .clamp => 9
  | .copy => 8
  | .shift => 7
  | .account => 6
  | .wake => 5
  | .sigio => 4
  | .out => 3
  | .removeWait => 2
  | .setRunning => 1
  | .pollWaitR => 5
  | .pollWaitW => 4
  | .pollTestR => 3
  | .pollTestW => 2
  | .pollUnlock => 1
  | _ => 0

/-- A non-blocking call on its way to its first return. -/
structure Task.underway (start len : UInt32) (t : Task) : Prop where
  nonblocking : t.call.nonblocking = true
  active : t.pc ≠ .idle
  first : t.polling = false
  answers : t.answers start len

variable {start : UInt32} {dev : GlobalfifoDev} {t : Task}

/-- Before its return such a call can always go on. -/
theorem statement_advances (h : t.underway start dev.currentLen) (hret : ¬ t.returned) :
    ∃ t' e, statement dev t .done = some (t',e) ∧ t'.pc.left < t.pc.left ∧ t'.pc ≠ .idle ∧ t'.polling = false := by
  obtain ⟨hnb,hactive,hfirst,hanswers⟩ := h
  unfold Task.answers Task.attempts Task.surveys at hanswers
  unfold Task.returned at hret
  cases hcall : t.call <;> rw [hcall] at hnb <;> simp only [Call.nonblocking, Bool.false_eq_true] at hnb <;>
    simp only [statement, hcall] at hanswers hret ⊢
  case read nonblock n =>
    subst hnb
    cases hpc : t.pc <;> simp only [hpc] at hanswers <;> try contradiction
    case sigio => exact absurd hanswers.1 (by decide)
    case test =>
      by_cases hempty : dev.currentLen = 0 <;>
        simp [globalfifoRead, hpc, hempty, Pc.left, hfirst]
    all_goals simp [globalfifoRead, hpc, Pc.left, hfirst]
  case write nonblock n buf =>
    subst hnb
    cases hpc : t.pc <;> simp only [hpc] at hanswers <;> try contradiction
    case shift => exact absurd hanswers.1 (by decide)
    case test =>
      by_cases hfull : dev.currentLen = globalfifoSize <;>
        simp [globalfifoWrite, hpc, hfull, Pc.left, hfirst]
    all_goals simp [globalfifoWrite, hpc, Pc.left, hfirst]
  case poll events =>
    replace hanswers := hanswers hfirst
    cases hpc : t.pc <;> simp only [hpc] at hanswers <;> try contradiction
    all_goals simp [doPoll, globalfifoPoll, pollWait, hpc, Pc.left, hfirst] at hret ⊢

/-- Alone, such a call reaches its return. -/
theorem returns_alone {s : Sys} {p : Pid} (hI : Inv s) (h : (s.task p).underway start s.dev.currentLen) :
    ∃ k s', run step s (List.replicate k (.run p .done)) = some s' ∧ (s'.task p).returned := by
  induction hk : (s.task p).pc.left using Nat.strong_induction_on generalizing s with
  | _ k ih =>
    by_cases hret : (s.task p).returned
    · exact ⟨0,s,rfl,hret⟩
    · obtain ⟨t,e,hst,hless,hactive,hfirst⟩ := statement_advances h hret
      have hself := apply_setTask_self p s t e
      have hm : step s (.run p .done) = some (e.apply p (s.setTask p t)) := by
        rw [step,hst]
        rfl
      have hone : run step s [.run p .done] = some (e.apply p (s.setTask p t)) := run_cons_eq_some.mpr ⟨_,hm,rfl⟩
      have hnext : ((e.apply p (s.setTask p t)).task p).underway start (e.apply p (s.setTask p t)).dev.currentLen := by
        refine ⟨?_,by rwa [hself.pc],by rwa [hself.polling],?_⟩
        · rw [hself.call,(statement_disciplined hst).call]
          exact h.nonblocking
        · exact answers_run hI hone (by simp) (by simp) h.answers
      obtain ⟨k,s',hrun,hs'⟩ := ih _ (by rwa [← hk,hself.pc]) (inv_step hm hI) hnext rfl
      exact ⟨k+1,s',run_cons_eq_some.mpr ⟨_,hm,hrun⟩,hs'⟩

end Progress

section Served
variable {s s' : Sys} {p : Pid}

theorem begun_inv {c : Call} (hI : Inv s) (hidle : (s.task p).pc = .idle) (hfree : s.dev.mutex = none)
    (hc : c.nonblocking = true) : Inv (s.begun p c) := by
  have hrun := (@run_begun s _ p c [] hc).mpr ⟨hidle,hfree,rfl⟩
  exact run_invariant (fun _ _ _ => inv_step) hrun hI

theorem begun_call (s : Sys) (p : Pid) (c : Call) : ((s.begun p c).task p).call = c := by
  change ((s.setTask p _).task p).call = c
  rw [setTask_self]
  rfl

/-- A non-blocking call issued while the mutex is free returns. -/
theorem serves_exists {c : Call} (hI : Inv s) (hfree : s.dev.mutex = none) (hidle : (s.task p).pc = .idle)
    (hc : c.nonblocking = true) : ∃ s', Serves s p c s' := by
  have hunderway : ((s.begun p c).task p).underway s.dev.currentLen (s.begun p c).dev.currentLen := by
    refine ⟨by rwa [begun_call],?_,?_,begun_answers⟩
    · change ((s.setTask p _).task p).pc ≠ .idle
      rw [setTask_self]
      cases c <;> simp [Task.enter, Call.first]
    · change ((s.setTask p _).task p).polling = false
      rw [setTask_self]
      rfl
  obtain ⟨k,s',hrun,hret⟩ := returns_alone (begun_inv hI hidle hfree hc) hunderway
  exact ⟨s',⟨_,(run_begun hc).mpr ⟨hidle,hfree,hrun⟩,by simp,by simp⟩,hret⟩

/-- What holds of a call when it returns. -/
structure Outcome (s : Sys) (p : Pid) (c : Call) (t : Task) : Prop where
  free : s.dev.mutex = none
  call : t.call = c
  framed : t.framed
  answers : ∃ len, t.answers s.dev.currentLen len

theorem Serves.outcome {c : Call} (h : Serves s p c s') (hI : Inv s) (hc : c.nonblocking = true) :
    Outcome s p c (s'.task p) := by
  obtain ⟨later,hrun,hfault,hcalls⟩ := h.run
  obtain ⟨hidle,hfree,hrun⟩ := (run_begun hc).mp hrun
  have hbegun := begun_inv hI hidle hfree hc
  have hI' : Inv s' := run_invariant (fun _ _ _ => inv_step) hrun hbegun
  refine ⟨hfree,?_,hI'.data.framed p,_,answers_run hbegun hrun hfault hcalls begun_answers⟩
  rw [call_run hcalls hrun,begun_call]

theorem ret_of_attempts {q : Side} {start len : UInt32} {t : Task} {n : ℕ} {l : ℕ → ℕ} (hret : t.pc = .ret)
    (ha : t.attempts q start len) (hF : 0 ≤ t.ret → t.ret = min n (l t.seen)) :
    t.ret = if start = q.limit then -eagain else (min n (l start.toNat) : ℕ) := by
  simp only [Task.attempts, hret] at ha
  split_ifs at ha ⊢
  · exact ha
  · rw [hF ha.1,ha.2]

theorem read_served {n : UInt64} (h : Serves s p (.read true n) s') (hI : Inv s) :
    (s'.task p).ret =
      if s.dev.currentLen = 0 then -eagain else (min n.toNat s.dev.currentLen.toNat : ℕ) := by
  obtain ⟨-,hcall,hframed,len,hanswers⟩ := h.outcome hI rfl
  have hret := h.returned
  simp only [Task.returned, hcall] at hret
  simp only [Task.answers, hcall] at hanswers
  simp only [Task.framed, hcall, Task.progress, hret] at hframed
  exact ret_of_attempts (l := id) hret hanswers fun h => (hframed h).1

theorem write_served {n : UInt64} {buf : ℕ → UInt8} (h : Serves s p (.write true n buf) s') (hI : Inv s) :
    (s'.task p).ret =
      if s.dev.currentLen = globalfifoSize then -eagain
      else (min n.toNat (capacity-s.dev.currentLen.toNat) : ℕ) := by
  obtain ⟨-,hcall,hframed,len,hanswers⟩ := h.outcome hI rfl
  have hret := h.returned
  simp only [Task.returned, hcall] at hret
  simp only [Task.answers, hcall] at hanswers
  simp only [Task.framed, hcall, Task.progress, hret] at hframed
  exact ret_of_attempts (l := (capacity-·)) hret hanswers fun h => (hframed h).1

theorem poll_served {events : Events} (h : Serves s p (.poll events) s') (hI : Inv s) :
    (s'.task p).mask = ⟨s.dev.currentLen ≠ 0,s.dev.currentLen ≠ globalfifoSize⟩ := by
  obtain ⟨-,hcall,-,len,hanswers⟩ := h.outcome hI rfl
  have hret := h.returned
  simp only [Task.returned, hcall] at hret
  simp only [Task.answers, hcall, Task.surveys, hret, true_implies] at hanswers
  exact hanswers

end Served

/-- The answers to a poll, a read and a write of `n` bytes, neither of which may sleep, agree at the
length `len`. -/
structure Agree (len n : ℕ) (mask : Events) (read write : ℤ) : Prop where
  pollin : mask.pollin = true ↔ 1 ≤ read ∧ read ≤ (min n len : ℕ)
  empty : mask.pollin = false → read = -eagain
  pollout : mask.pollout = true ↔ 1 ≤ write ∧ write ≤ (min n (capacity-len) : ℕ)
  full : mask.pollout = false → write = -eagain
  either : mask.pollin = true ∨ mask.pollout = true

theorem agree_of_bound {len : UInt32} {n : ℕ} (hlen : len.toNat ≤ capacity) (hn : 1 ≤ n) :
    Agree len.toNat n ⟨len ≠ 0,len ≠ globalfifoSize⟩
      (if len = 0 then -eagain else (min n len.toNat : ℕ))
      (if len = globalfifoSize then -eagain else (min n (capacity-len.toNat) : ℕ)) := by
  have hempty : len = 0 ↔ len.toNat = 0 := UInt32.toNat_inj.symm
  have hfull : len = globalfifoSize ↔ len.toNat = capacity := UInt32.toNat_inj.symm
  constructor
  all_goals simp only [hempty, hfull, decide_eq_true_eq, decide_eq_false_iff_not, ne_eq, not_not, eagain]
  all_goals unfold capacity at *
  · split_ifs <;> omega
  · exact fun h => if_pos h
  · split_ifs <;> omega
  · exact fun h => if_pos h
  · omega

/-- Whoever polls in `s` finds `P`. -/
def Polled (s : Sys) (P : Events → Prop) : Prop := ∀ p events s', Serves s p (.poll events) s' → P (s'.task p).mask

/-- The call has still to take effect. -/
def Task.awaits (t : Task) : Prop := ∀ id, t.pc.phase id = .pending id

section Polled
variable {acts : List Act} {s : Sys}

theorem polled_of_length {P : Events → Prop} (h : Reached acts s)
    (hP : s.dev.mutex = none → P ⟨s.dev.currentLen ≠ 0,s.dev.currentLen ≠ globalfifoSize⟩) : Polled s P := by
  intro p events s' hs
  rw [poll_served hs (inv_reached h)]
  exact hP (hs.outcome (inv_reached h) rfl).free

theorem polled_after_get {xs : List UInt8} (h : Reached acts s) (hlast : s.log.getLast? = some (.get xs))
    (hxs : 1 ≤ xs.length) : Polled s fun mask => mask.pollout = true := by
  refine polled_of_length h fun hfree => ?_
  have hlen := BoundedQueue.length_of_last ((dataInv_reached h).free hfree).replay hlast
  rw [slice_length] at hlen
  refine decide_eq_true fun hfull => ?_
  rw [hfull,globalfifoSize_toNat] at hlen
  omega

theorem polled_after_put {xs : List UInt8} (h : Reached acts s) (hlast : s.log.getLast? = some (.put xs))
    (hxs : 1 ≤ xs.length) : Polled s fun mask => mask.pollin = true := by
  refine polled_of_length h fun hfree => ?_
  have hlen := BoundedQueue.length_of_last ((dataInv_reached h).free hfree).replay hlast
  rw [slice_length] at hlen
  refine decide_eq_true fun hempty => ?_
  rw [hempty,UInt32.toNat_zero] at hlen
  omega

theorem polled_after_clear (h : Reached acts s) (hlast : s.log.getLast? = some .clear) :
    Polled s fun mask => mask.pollout = true ∧ mask.pollin = false := by
  refine polled_of_length h fun hfree => ?_
  have hempty := congrArg List.length (BoundedQueue.length_of_last ((dataInv_reached h).free hfree).replay hlast)
  rw [slice_length] at hempty
  rw [UInt32.toNat_inj.mp (hempty.trans UInt32.toNat_zero.symm)]
  decide

/-- A call that returns, with no other transfer since some moment before it took effect, has completed the
last one. -/
theorem last_of_call {s' : Sys} {p : Pid} {later : List Act} {x : Transfer} (h : Reached acts s)
    (hawaits : (s.task p).awaits) (hcalls : ∀ d, .call p d ∉ later) (hrun : run step s later = some s')
    (hret : (s'.task p).pc = .ret) (hone : s'.log.length ≤ s.log.length+1)
    (hpoll : ∀ events, (s'.task p).call ≠ .poll events) (hx : (s'.task p).answer.transfer = some x) :
    s'.log.getLast? = some x := by
  obtain ⟨m,hm,rfl⟩ := machine_of_run (m := Machine.load) h
  obtain ⟨m',hm',rfl⟩ := machine_of_run hrun
  rw [call_run hcalls hrun] at hpoll
  exact last_of_returned (sound_reached hm) hm' hcalls hpoll (hawaits _) hret hone hx

end Polled

/-- `globalfifo_poll` agrees with the non-blocking operations. The answers come from any state with a free
mutex, in which all these calls return. The effect of a returned call, blocking or not, on later polls lasts
until the next transfer; the call may have begun and waited before `s`, as long as it has completed the only
transfer since. -/
theorem poll_agrees {acts : List Act} {s : Sys} (h : Reached acts s) :
    (∀ p c, s.dev.mutex = none → (s.task p).pc = .idle → c.nonblocking = true → ∃ s', Serves s p c s') ∧
    (∀ p q r events n buf s1 s2 s3, 1 ≤ n.toNat → Serves s p (.poll events) s1 → Serves s q (.read true n) s2 →
      Serves s r (.write true n buf) s3 →
      Agree s.dev.currentLen.toNat n.toNat (s1.task p).mask (s2.task q).ret (s3.task r).ret) ∧
    (∀ p later s' after u, (s.task p).awaits → (∀ d, .call p d ∉ later) → run step s later = some s' →
      (s'.task p).pc = .ret → s'.log.length ≤ s.log.length+1 → run step s' after = some u → u.log = s'.log →
      (∀ nonblock n, (s'.task p).call = .read nonblock n → 1 ≤ (s'.task p).ret →
        Polled u fun mask => mask.pollout = true) ∧
      (∀ nonblock n buf, (s'.task p).call = .write nonblock n buf → 1 ≤ (s'.task p).ret →
        Polled u fun mask => mask.pollin = true) ∧
      ((s'.task p).call = .ioctl fifoClear → (s'.task p).ret = 0 ∧
        Polled u fun mask => mask.pollout = true ∧ mask.pollin = false)) := by
  have hI := inv_reached h
  refine ⟨fun p c hfree hidle hc => serves_exists hI hfree hidle hc,?_,?_⟩
  · intro p q r events n buf s1 s2 s3 hn hpoll hread hwrite
    rw [poll_served hpoll hI,read_served hread hI,write_served hwrite hI]
    exact agree_of_bound (hI.data.free (hpoll.outcome hI rfl).free).bound hn
  · intro p later s' after u hawaits hcalls hlater hret hone hafter hlog
    have h' : Reached (acts ++ later) s' := run_append_eq_some.mpr ⟨s,h,hlater⟩
    have hu : Reached (acts ++ later ++ after) u := run_append_eq_some.mpr ⟨s',h',hafter⟩
    have hframed := (dataInv_reached h').framed p
    refine ⟨fun nonblock n hcall hmoved => ?_,fun nonblock n buf hcall hmoved => ?_,fun hcall => ?_⟩
    · have hlast := last_of_call (x := .get (s'.task p).ubuf) h hawaits hcalls hlater hret hone
        (by simp [hcall]) (by simp [Task.answer, hcall, if_pos (show 0 ≤ (s'.task p).ret by omega), QueueOp.transfer])
      simp only [Task.framed, hcall, Task.progress, hret] at hframed
      have hlen := (hframed (by omega)).2
      exact polled_after_get hu (hlog ▸ hlast) (by omega)
    · have hlast := last_of_call (x := .put (slice buf 0 (s'.task p).ret.toNat)) h hawaits hcalls hlater hret hone
        (by simp [hcall]) (by simp [Task.answer, hcall, if_pos (show 0 ≤ (s'.task p).ret by omega), QueueOp.transfer])
      exact polled_after_put hu (hlog ▸ hlast) (by rw [slice_length]; omega)
    · have hzero := cleared_reached h' p hcall hret
      have hlast := last_of_call (x := .clear) h hawaits hcalls hlater hret hone (by simp [hcall])
        (by simp [Task.answer, hcall, hzero, QueueOp.transfer])
      exact ⟨hzero,polled_after_clear hu (hlog ▸ hlast)⟩

/-- After a write of two bytes there is something to read and room to write. -/
theorem poll_agrees_two_bytes : ∃ acts s s1 s2 s3, Reached acts s ∧ Serves s 2 (.poll ⟨true,true⟩) s1 ∧
    Serves s 3 (.read true 5) s2 ∧ Serves s 4 (.write true 5 fun _ => 0) s3 ∧
    Agree 2 5 (s1.task 2).mask (s2.task 3).ret (s3.task 4).ret ∧ Polled s fun mask => mask.pollin = true := by
  have hbegun : Reached [.call 1 (.write false 2 fun _ => 7)]
      (load.setTask 1 ((load.task 1).enter (.write false 2 fun _ => 7))) := rfl
  obtain ⟨s,hs,hp⟩ := exists_of_run_any step (load.setTask 1 ((load.task 1).enter (.write false 2 fun _ => 7)))
    (List.replicate 11 (.run 1 .done))
    (fun s => s.dev.currentLen = 2 && s.dev.mutex = none && ([2,3,4].all fun p => (s.task p).pc = .idle) &&
      ((s.task 1).pc = .ret && (s.task 1).ret = 2 && s.log.length = 1)) (by decide)
  simp only [Bool.and_eq_true, decide_eq_true_eq, List.all_cons] at hp
  obtain ⟨⟨⟨hlen,hfree⟩,h2,h3,h4,-⟩,⟨hret,htwo⟩,hone⟩ := hp
  have hcalls : ∀ d, Act.call 1 d ∉ List.replicate 11 (Act.run 1 .done) := by simp
  have hcall : (s.task 1).call = .write false 2 fun _ => 7 := (call_run hcalls hs).trans rfl
  have hpolled := ((poll_agrees hbegun).2.2 1 _ s [] s (fun _ => rfl) hcalls hs hret (by rw [hone]; decide) rfl rfl).2.1
    _ _ _ hcall (by omega)
  have hreached : Reached ([.call 1 (.write false 2 fun _ => 7)] ++ List.replicate 11 (.run 1 .done)) s :=
    run_append_eq_some.mpr ⟨_,hbegun,hs⟩
  obtain ⟨hserves,hagree,-⟩ := poll_agrees hreached
  obtain ⟨s1,h1⟩ := hserves 2 (.poll ⟨true,true⟩) hfree h2 rfl
  obtain ⟨s2,h2⟩ := hserves 3 (.read true 5) hfree h3 rfl
  obtain ⟨s3,h3⟩ := hserves 4 (.write true 5 fun _ => 0) hfree h4 rfl
  have hlen' : s.dev.currentLen.toNat = 2 := congrArg UInt32.toNat hlen
  have h := hagree 2 3 4 _ 5 _ s1 s2 s3 (by decide) h1 h2 h3
  rw [hlen'] at h
  exact ⟨_,s,s1,s2,s3,hreached,h1,h2,h3,h,hpolled⟩

end ExampleKernel.GlobalFifo
