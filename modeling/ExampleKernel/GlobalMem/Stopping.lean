import ExampleKernel.Foundation.Potential
import ExampleKernel.GlobalMem.Threads

/-! The end of the two kernel threads. They never block each other for good, and `kthread_stop` waits for
a bounded number of their statements. -/
namespace ExampleKernel.GlobalMem.Threads
open ExampleKernel.Foundation Lock Stmt

section Tables

/-- How many statements of a round a thread has ahead of it that is told to stop. -/
def Thread.left (i : Thread) (n : ℕ) : ℕ :=
  if n = 0 then 1 else if n < i.program.length then i.program.length+1-n else 0

def Stmt.bumps : Stmt → ℕ
  | lock l | unlock l => if l = globalmemSeqLock then 1 else 0
  | _ => 0

/-- How often it changes the sequence number of the seqlock meanwhile. -/
def Thread.writes (i : Thread) (n : ℕ) : ℕ := if n = 0 then 0 else ((i.program.drop n).map Stmt.bumps).sum

/-- Between `read_seqbegin` and the end of `read_seqretry`. -/
def Thread.looks (i : Thread) (n : ℕ) : Bool :=
  i.program[n]? = some readValue || i.program[n]? = some readSeqretry

/-- A statement that leads on. Only the start of a read section leads into one. -/
def Thread.descends (i : Thread) (n m : ℕ) (st : Stmt) : Bool :=
  i.left m < i.left n && i.writes m+st.bumps ≤ i.writes n &&
    (!i.looks m || st = readSeqbegin || st = readValue)

/-- What the statements of the loops have to be for the threads to get on. -/
def Thread.orderly (i : Thread) (n : ℕ) : Stmt → Bool
  | kthreadShouldStop => i.descends n i.program.length kthreadShouldStop
  | msleep => i.descends n 0 msleep
  | readSeqretry => i.descends n (n+1) readSeqretry && i.left (n-2) = i.left n+2 && i.writes (n-2) ≤ i.writes n &&
      i.program[n-2]? = some readSeqbegin && i.looks n
  | readLock => i.descends n (n+1) readLock && i = .one
  | readUnlock => i.descends n (n+1) readUnlock && i = .one
  | st => i.descends n (n+1) st

/-- Inside a section nothing has to wait. -/
def Thread.waitless (i : Thread) (n : ℕ) : Stmt → Bool
  | load | store | unlock _ => true
  | _ => i.held n = none

theorem table_of_stmt {s : State} {i : Thread} {st : Stmt} (h : s.stmt i = some st) :
    i.orderly (s.pc i) st = true ∧ i.waitless (s.pc i) st = true := by
  have hall : ∀ n, n < i.program.length →
      (i.program[n]?).all (fun st => i.orderly n st && i.waitless n st) = true := by
    cases i <;> decide
  have := hall _ (stmt_lt h)
  rw [State.stmt] at h
  rwa [h,Option.all_some,Bool.and_eq_true] at this

theorem readUnlock_after_readLock (i : Thread) (n : ℕ) :
    i.program[n+1]? = some readUnlock ↔ i.program[n]? = some readLock := by
  by_cases hn : n < 21
  · have hall : ∀ n, n < 21 → (i.program[n+1]? = some readUnlock ↔ i.program[n]? = some readLock) := by
      cases i <;> decide
    exact hall n hn
  · have hlen : i.program.length ≤ 21 := by cases i <;> decide
    rw [List.getElem?_eq_none (by omega),List.getElem?_eq_none (by omega)]
    simp

/-- The end of the loop is outside of every section. -/
theorem held_of_none {i : Thread} {n : ℕ} (h : i.program[n]? = none) : i.held n = none := by
  rw [List.getElem?_eq_none_iff] at h
  rw [Thread.held,List.take_of_length_le h]
  cases i <;> rfl

end Tables

section Steps
variable {s t u : State} {i j : Thread} {st : Stmt}

theorem exec_eq_some : exec s i = some t ↔
    ∃ st u, s.stmt i = some st ∧ effect s i st = some u ∧ t = u.goto i (target s i st) := by
  simp only [exec, Option.bind_eq_some_iff, Option.map_eq_some_iff]
  constructor
  · rintro ⟨st,hst,u,hu,rfl⟩
    exact ⟨st,u,hst,hu,rfl⟩
  · rintro ⟨st,u,hst,hu,rfl⟩
    exact ⟨st,hst,u,hu,rfl⟩

/-- Nothing but the ends of its write section changes the sequence number, and only `read_seqbegin` copies it. -/
theorem effect_seq (h : effect s i st = some u) : u.seq = s.seq+st.bumps ∧ u.shouldStop = s.shouldStop ∧
    u.seqNo = if st = readSeqbegin then Function.update s.seqNo i u.seq else s.seqNo := by
  cases st <;> simp only [effect, Option.ite_none_right_eq_some, Option.some.injEq] at h
  case lock l | unlock l =>
    first | subst h | obtain ⟨-,rfl⟩ := h
    simp only [Lock.seqNext, Stmt.bumps, reduceCtorEq, if_false]
    split_ifs <;> simp
  case readLock => obtain ⟨-,rfl⟩ := h; simp [Stmt.bumps]
  case readSeqbegin => obtain ⟨-,rfl⟩ := h; simp [Stmt.bumps]
  all_goals subst h; simp [Stmt.bumps]

/-- A read section that has to be repeated. -/
def State.stale (s : State) (i : Thread) : ℕ := if i.looks (s.pc i) ∧ s.seqNo i ≠ s.seq then 3 else 0

/-- What thread `i` still has to do, and to make the other one repeat. -/
def State.work (s : State) (i : Thread) : ℕ := i.left (s.pc i)+s.stale i+3*i.writes (s.pc i)

/-- The next statement is nearer to the end, or the way back to a stale read section. -/
theorem target_descends (h : s.stmt i = some st) (hstop : s.shouldStop i = true)
    (hretry : st = readSeqretry → s.seq = s.seqNo i) : i.descends (s.pc i) (target s i st) st = true := by
  have htable := (table_of_stmt h).1
  cases st <;> simp only [Thread.orderly, Bool.and_eq_true, decide_eq_true_eq] at htable <;> simp only [target]
  case kthreadShouldStop => rw [if_pos hstop]; exact htable
  case readSeqretry => rw [if_pos (hretry rfl)]; exact htable.1.1.1.1
  case readLock | readUnlock => exact htable.1
  all_goals exact htable

theorem work_self (h : exec s i = some t) (hstop : s.shouldStop i = true) :
    ∃ st, s.stmt i = some st ∧ t.work i+3*st.bumps < s.work i := by
  obtain ⟨st,u,hst,hu,rfl⟩ := exec_eq_some.mp h
  refine ⟨st,hst,?_⟩
  obtain ⟨hseq,-,hseqNo⟩ := effect_seq hu
  have hpc : (u.goto i (target s i st)).pc i = target s i st := Function.update_self _ _ _
  unfold State.work State.stale
  rw [hpc]
  show i.left (target s i st)+(if i.looks (target s i st) ∧ u.seqNo i ≠ u.seq then 3 else 0)+
    3*i.writes (target s i st)+3*st.bumps < _
  by_cases hretry : st = readSeqretry → s.seq = s.seqNo i
  · have hdesc := target_descends hst hstop hretry
    simp only [Thread.descends, Bool.and_eq_true, Bool.or_eq_true, Bool.not_eq_true', decide_eq_true_eq] at hdesc
    obtain ⟨⟨hleft,hwrites⟩,hlooks⟩ := hdesc
    have hstale : (if i.looks (target s i st) ∧ u.seqNo i ≠ u.seq then 3 else 0) ≤
        if i.looks (s.pc i) ∧ s.seqNo i ≠ s.seq then 3 else 0 := by
      rcases hlooks with (hlooks | rfl) | rfl
      · simp [hlooks]
      · simp [hseqNo]
      · have hl : i.looks (s.pc i) = true := by
          rw [State.stmt] at hst
          simp [Thread.looks, hst]
        have hs : u.seq = s.seq := hseq
        simp only [hs, hseqNo, reduceCtorEq, if_false, hl, true_and]
        split_ifs <;> simp_all
    omega
  · push Not at hretry
    obtain ⟨rfl,hne⟩ := hretry
    have htable := (table_of_stmt hst).1
    simp only [Thread.orderly, Bool.and_eq_true, decide_eq_true_eq] at htable
    obtain ⟨⟨⟨⟨-,hleft⟩,hwrites⟩,hback⟩,hlooks⟩ := htable
    have hout : i.looks (s.pc i-2) = false := by simp [Thread.looks, hback]
    have htarget : target s i readSeqretry = s.pc i-2 := if_neg hne
    cases hu
    rw [htarget,if_neg (by simp [hout]),if_pos ⟨hlooks,Ne.symm hne⟩]
    simp only [Stmt.bumps]
    omega

theorem work_other (h : exec s i = some t) (hst : s.stmt i = some st) (hj : j ≠ i) :
    t.work j ≤ s.work j+3*st.bumps := by
  obtain ⟨st',u,hst',hu,rfl⟩ := exec_eq_some.mp h
  obtain rfl : st' = st := Option.some.inj (hst'.symm.trans hst)
  obtain ⟨hseq,-,hseqNo⟩ := effect_seq hu
  have hpc : (u.goto i (target s i st')).pc j = s.pc j := by
    show Function.update u.pc i _ j = _
    rw [Function.update_of_ne hj,effect_pc hu]
  have hno : u.seqNo j = s.seqNo j := by
    rw [hseqNo]
    split_ifs
    · exact Function.update_of_ne hj _ _
    · rfl
  have hstale : (if j.looks (s.pc j) ∧ s.seqNo j ≠ s.seq+st'.bumps then 3 else 0) ≤
      (if j.looks (s.pc j) ∧ s.seqNo j ≠ s.seq then 3 else 0)+3*st'.bumps := by
    cases hb : st'.bumps with
    | zero => simp
    | succ k => split_ifs <;> omega
  unfold State.work State.stale
  rw [hpc]
  show j.left (s.pc j)+(if j.looks (s.pc j) ∧ u.seqNo j ≠ u.seq then 3 else 0)+_ ≤ _
  rw [hno,hseq]
  omega

def State.potential (s : State) : ℕ := s.work .one+s.work .two

theorem potential_falls (h : exec s i = some t) (hstop : s.shouldStop i = true) : t.potential < s.potential := by
  obtain ⟨st,hst,hself⟩ := work_self h hstop
  have hother := fun j => work_other (j := j) h hst
  unfold State.potential
  cases i with
  | one => have := hother .two (by simp); omega
  | two => have := hother .one (by simp); omega

theorem left_le (i : Thread) (n : ℕ) : i.left n+3*i.writes n ≤ if i = .one then 16 else 25 := by
  by_cases hn : n < 21
  · have hall : ∀ n, n < 21 → i.left n+3*i.writes n ≤ if i = .one then 16 else 25 := by cases i <;> decide
    exact hall n hn
  · have hlen : i.program.length ≤ 21 := by cases i <;> decide
    rw [Thread.left,Thread.writes,List.drop_eq_nil_of_le (by omega),if_neg (by omega),if_neg (by omega)]
    simp

theorem potential_le (s : State) : s.potential ≤ 47 := by
  have hleft := left_le
  have hone := hleft .one (s.pc .one)
  have htwo := hleft .two (s.pc .two)
  have hstale : ∀ i, s.stale i ≤ 3 := fun i => by unfold State.stale; split_ifs <;> omega
  have := hstale .one
  have := hstale .two
  simp only [if_true, reduceCtorEq, if_false] at hone htwo
  unfold State.potential State.work
  omega

/-- The locks as the program points say: sections exclude each other, only the first thread reads under the
read-write lock, and the sequence number is odd inside a write section. -/
structure Guarded (s : State) : Prop where
  exclusive : Exclusive s
  readers : s.readers = if s.stmt .one = some readUnlock then [.one] else []
  odd : s.seq%2 = if s.holder globalmemSeqLock = none then 0 else 1

theorem guarded_loaded : Guarded loaded where
  exclusive l i := by cases i <;> simp [loaded, State.held, Thread.held]
  readers := by decide
  odd := rfl

/-- The end of a read section comes right after its begin. -/
theorem target_readUnlock (h : s.stmt i = some st) :
    i.program[target s i st]? = some readUnlock ↔ st = readLock := by
  have hnext : i.program[s.pc i+1]? = some readUnlock ↔ st = readLock := by
    rw [readUnlock_after_readLock]
    exact (Eq.congr_left h).trans Option.some_inj
  have htable := (table_of_stmt h).1
  cases st <;> simp only [target, reduceCtorEq] at hnext ⊢
  case kthreadShouldStop =>
    split_ifs
    · simp
    · exact hnext
  case readSeqretry =>
    simp only [Thread.orderly, Bool.and_eq_true, decide_eq_true_eq] at htable
    split_ifs
    · exact hnext
    · simp [htable.1.2]
  case msleep => cases i <;> decide
  all_goals exact hnext

theorem effect_readers (h : effect s i st = some u) (hlock : st ≠ readLock) (hunlock : st ≠ readUnlock) :
    u.readers = s.readers := by
  cases st <;> simp only [effect, Option.ite_none_right_eq_some, Option.some.injEq] at h
  case readLock => contradiction
  case readUnlock => contradiction
  case lock | readSeqbegin => obtain ⟨-,rfl⟩ := h; rfl
  all_goals subst h; rfl

theorem readers_exec (hs : Guarded s) (h : exec s i = some t) :
    t.readers = if t.stmt .one = some readUnlock then [.one] else [] := by
  obtain ⟨st,u,hst,hu,rfl⟩ := exec_eq_some.mp h
  have htable := (table_of_stmt hst).1
  have hnext := target_readUnlock hst
  show u.readers = _
  by_cases hlock : st = readLock
  · subst hlock
    simp only [Thread.orderly, Bool.and_eq_true, decide_eq_true_eq] at htable
    obtain rfl := htable.2
    have hnone : s.readers = [] := hs.readers.trans (if_neg (by simp [hst]))
    simp only [effect, Option.ite_none_right_eq_some, Option.some.injEq] at hu
    obtain ⟨-,rfl⟩ := hu
    rw [stmt_goto,if_pos (hnext.mpr rfl)]
    exact congrArg _ hnone
  by_cases hunlock : st = readUnlock
  · subst hunlock
    simp only [Thread.orderly, Bool.and_eq_true, decide_eq_true_eq] at htable
    obtain rfl := htable.2
    have hone : s.readers = [.one] := hs.readers.trans (if_pos hst)
    cases hu
    rw [stmt_goto,if_neg (mt hnext.mp hlock)]
    show s.readers.erase .one = []
    rw [hone]
    rfl
  · rw [effect_readers hu hlock hunlock,hs.readers]
    cases i with
    | one =>
      rw [stmt_goto,if_neg (mt hnext.mp hlock),if_neg fun hun => hunlock (Option.some.inj (hst.symm.trans hun))]
    | two => rw [exec_other h (by decide : Thread.one ≠ .two)]

theorem odd_exec (hs : Guarded s) (h : exec s i = some t) :
    t.seq%2 = if t.holder globalmemSeqLock = none then 0 else 1 := by
  obtain ⟨st,u,hst,hu,rfl⟩ := exec_eq_some.mp h
  have hodd := hs.odd
  show u.seq%2 = if u.holder globalmemSeqLock = none then 0 else 1
  cases st <;> simp only [effect, Option.ite_none_right_eq_some, Option.some.injEq] at hu
  case lock l =>
    obtain ⟨hfree,rfl⟩ := hu
    by_cases hl : l = globalmemSeqLock
    · subst hl
      simp only [State.free, Bool.and_eq_true, decide_eq_true_eq] at hfree
      rw [if_pos hfree.1] at hodd
      simp only [Lock.seqNext, if_true, Function.update_self, reduceCtorEq, if_false]
      omega
    · simpa only [Lock.seqNext, if_neg hl, Function.update_of_ne (Ne.symm hl)] using hodd
  case unlock l =>
    subst hu
    by_cases hl : l = globalmemSeqLock
    · subst hl
      have hb := bracketed_of_stmt hst
      simp only [Thread.bracketed, Bool.and_eq_true, decide_eq_true_eq] at hb
      rw [(hs.exclusive globalmemSeqLock i).mpr hb.1] at hodd
      simp only [reduceCtorEq, if_false] at hodd
      simp only [Lock.seqNext, if_true, Function.update_self]
      omega
    · simpa only [Lock.seqNext, if_neg hl, Function.update_of_ne (Ne.symm hl)] using hodd
  case readLock | readSeqbegin => obtain ⟨-,rfl⟩ := hu; exact hodd
  all_goals subst hu; exact hodd

theorem guarded_step {a : Act} (h : step s a = some t) (hs : Guarded s) : Guarded t := by
  cases a with
  | thread i => exact ⟨exclusive_exec h hs.exclusive,readers_exec hs h,odd_exec hs h⟩
  | kthreadStop i => cases h; exact ⟨hs.exclusive,hs.readers,hs.odd⟩

end Steps

section Progress
variable {s t u : State} {i j : Thread} {st : Stmt}

/-- Inside a section a thread can go on. -/
theorem enabled_of_held {l : Lock} (h : s.held i = some l) : exec s i ≠ none := by
  cases hst : s.stmt i with
  | none =>
    rw [State.held,held_of_none hst] at h
    contradiction
  | some st =>
    have hwait := (table_of_stmt hst).2
    have hheld : i.held (s.pc i) ≠ none := by rw [← State.held,h]; simp
    cases st <;> simp only [Thread.waitless, decide_eq_true_eq] at hwait
    case load | store | unlock => simp [exec, hst, effect]
    all_goals exact absurd hwait hheld

theorem enabled_of_holder {l : Lock} (hs : Guarded s) (h : s.holder l ≠ none) : ∃ j, exec s j ≠ none := by
  obtain ⟨j,hj⟩ := Option.ne_none_iff_exists'.mp h
  exact ⟨j,enabled_of_held ((hs.exclusive l j).mp hj)⟩

theorem free_of_stuck (hs : Guarded s) (hstuck : ∀ j, exec s j = none) (l : Lock) : s.holder l = none := by
  by_contra hl
  obtain ⟨j,hj⟩ := enabled_of_holder hs hl
  exact hj (hstuck j)

/-- A thread that has to wait waits for one that can go on. -/
theorem done_of_stuck (hs : Guarded s) (hstuck : ∀ j, exec s j = none) (i : Thread) : s.stmt i = none := by
  have hfree := free_of_stuck hs hstuck
  have hreaders : s.readers = [] := by
    rw [hs.readers,if_neg]
    intro hun
    have := hstuck .one
    simp [exec, hun, effect] at this
  have heven : s.seq%2 = 0 := hs.odd.trans (if_pos (hfree _))
  cases hst : s.stmt i with
  | none => rfl
  | some st =>
    have := hstuck i
    simp only [exec, hst, Option.bind_some, Option.map_eq_none_iff] at this
    cases st <;> simp [effect, State.free, hfree, hreaders, heven] at this

/-- Both threads have returned and left nothing locked. -/
structure Finished (s : State) : Prop where
  returned : ∀ i, s.stmt i = none
  free : ∀ l, s.holder l = none
  readers : s.readers = []
  even : s.seq%2 = 0

theorem finished_of_stuck (hs : Guarded s) (hstuck : ∀ i, exec s i = none) : Finished s := by
  have hdone := done_of_stuck hs hstuck
  have hfree := free_of_stuck hs hstuck
  exact ⟨hdone,hfree,hs.readers.trans (if_neg (by simp [hdone])),hs.odd.trans (if_pos (hfree _))⟩

/-- Only the threads themselves go on. -/
def Act.isThread : Act → Bool
  | .thread _ => true
  | _ => false

theorem stopped_step {a : Act} (h : step s a = some t) (hs : ∀ i, s.shouldStop i = true) (i : Thread) :
    t.shouldStop i = true := by
  cases a with
  | thread j =>
    obtain ⟨st,u,-,hu,rfl⟩ := exec_eq_some.mp h
    show u.shouldStop i = true
    rw [(effect_seq hu).2.1]
    exact hs i
  | kthreadStop j =>
    cases h
    by_cases hi : i = j
    · subst hi; exact Function.update_self _ _ _
    · exact (Function.update_of_ne hi _ _).trans (hs i)

theorem thread_falls {a : Act} (h : step s a = some t) (ha : a.isThread = true) (hs : ∀ i, s.shouldStop i = true) :
    t.potential < s.potential := by
  cases a with
  | thread i => exact potential_falls h (hs i)
  | kthreadStop i => contradiction

/-- The threads never deadlock: where neither can go on, both have returned, with every lock free. Once
both are told to stop, they execute fewer than fifty statements more, in any order, and return. -/
theorem threads_stop {acts : List Act} (h : run step loaded acts = some s) :
    ((∀ i, step s (.thread i) = none) → Finished s) ∧
    ((∀ i, s.shouldStop i = true) →
      (∀ later u, Meets step (fun _ a => a.isThread = true) s later → run step s later = some u →
        later.length ≤ 47) ∧
      ∃ later u, Meets step (fun _ a => a.isThread = true) s later ∧ run step s later = some u ∧ Finished u) := by
  have hguarded : ∀ later u, run step s later = some u → Guarded u := fun later u hu =>
    run_invariant (fun _ _ _ => guarded_step) (run_append_eq_some.mpr ⟨s,h,hu⟩) guarded_loaded
  refine ⟨finished_of_stuck (hguarded [] s rfl),fun hstop => ⟨fun later u hC hu => ?_,?_⟩⟩
  · have hle := length_le_of_falls (I := fun s => ∀ i, s.shouldStop i = true) (Φ := State.potential)
      (fun _ _ _ hst _ => stopped_step hst) (fun _ _ _ hst => thread_falls hst) hC hu hstop
    have := potential_le s
    omega
  · obtain ⟨later,u,hC,hu,hend⟩ := exists_rest (A := fun _ (a : Act) => a.isThread = true)
      (I := fun s => ∀ i, s.shouldStop i = true) (Φ := State.potential)
      (fun _ _ _ hst _ => stopped_step hst) (fun _ _ _ hst => thread_falls hst) hstop
    exact ⟨later,u,hC,hu,finished_of_stuck (hguarded later u hu) fun i => hend (.thread i) rfl⟩

/-- The first thread is told to stop inside the mutex, the second one waits for it. -/
theorem threads_stop_waiting : ∃ s later u, run step loaded [.thread .one,.thread .one,.thread .two,
    .kthreadStop .one,.kthreadStop .two] = some s ∧ step s (.thread .two) = none ∧ run step s later = some u ∧
    Finished u := by
  obtain ⟨s,hs,hp⟩ := exists_of_run_any step loaded [.thread .one,.thread .one,.thread .two,
    .kthreadStop .one,.kthreadStop .two] (fun s => (step s (.thread .two)).isNone ∧ s.shouldStop .one ∧
      s.shouldStop .two) (by decide)
  simp only [decide_eq_true_eq, Option.isNone_iff_eq_none] at hp
  obtain ⟨later,u,-,hu,hend⟩ := ((threads_stop hs).2 fun i => by cases i; exacts [hp.2.1,hp.2.2]).2
  exact ⟨s,later,u,hs,hp.1,hu,hend⟩

end Progress

end ExampleKernel.GlobalMem.Threads
