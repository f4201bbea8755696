import ExampleKernel.Foundation.Transition

/-! The two kernel threads of globalmem and the variable that both increment, under a mutex, a
spinlock, a read-write lock or a seqlock. -/
namespace ExampleKernel.GlobalMem.Threads
open ExampleKernel.Foundation

/-- The locks, a read-write lock and a seqlock standing for their write sides. -/
inductive Lock
  | globalmemMutex | globalmemSpinlock | globalmemRwlock | globalmemSeqLock
  deriving DecidableEq, Repr

/-- The statements of the thread functions that touch what they share. `load` and `store` are the
halves of `globalmem_thread_variable++`. -/
inductive Stmt
  | kthreadShouldStop
  | lock (l : Lock)
  | unlock (l : Lock)
  | load
  | store
  | readLock
  | readUnlock
  | atomicInc
  | readSeqbegin
  | readValue
  | readSeqretry
  | msleep
  deriving DecidableEq, Repr

open Lock Stmt

def threadFunction : List Stmt :=
  [kthreadShouldStop,
    lock globalmemMutex, load, store, unlock globalmemMutex,
    lock globalmemSpinlock, load, store, unlock globalmemSpinlock,
    readLock, readUnlock,
    atomicInc,
    readSeqbegin, readValue, readSeqretry,
    msleep]

def threadFunction2 : List Stmt :=
  [kthreadShouldStop,
    lock globalmemMutex, load, store, unlock globalmemMutex,
    lock globalmemSpinlock, load, store, unlock globalmemSpinlock,
    lock globalmemRwlock, load, store, unlock globalmemRwlock,
    atomicInc,
    lock globalmemSeqLock, load, store, unlock globalmemSeqLock,
    msleep]

inductive Thread
  | one
  | two
  deriving DecidableEq, Repr

def Thread.program : Thread → List Stmt
  | .one => threadFunction
  | .two => threadFunction2

/-- `pc` counts the statements of the loop, `reg` is what a thread has loaded, `seq` the sequence
number of the seqlock. `increments` is history: how many increments were completed. -/
structure State where
  pc : Thread → ℕ
  reg : Thread → ℕ
  seqNo : Thread → ℕ
  value : Thread → ℕ
  shouldStop : Thread → Bool
  holder : Lock → Option Thread
  readers : List Thread
  seq : ℕ
  threadVariable : ℕ
  threadVariable2 : ℕ
  increments : ℕ

def State.stmt (s : State) (i : Thread) : Option Stmt := i.program[s.pc i]?

def State.goto (s : State) (i : Thread) (n : ℕ) : State := {s with pc := Function.update s.pc i n}

/-- A write section of the seqlock changes its sequence number at both ends. -/
def Lock.seqNext (l : Lock) (seq : ℕ) : ℕ := if l = globalmemSeqLock then seq+1 else seq

/-- Nobody else has the lock; writers also wait for the readers. -/
def State.free (s : State) (l : Lock) : Bool := s.holder l = none && (l ≠ globalmemRwlock || s.readers = [])

/-- The next statement of the loop. -/
def target (s : State) (i : Thread) : Stmt → ℕ
  | kthreadShouldStop => if s.shouldStop i then i.program.length else s.pc i+1
  | readSeqretry => if s.seq = s.seqNo i then s.pc i+1 else s.pc i-2
  | msleep => 0
  | _ => s.pc i+1

/-- The effect of a statement, if it does not have to wait. `globalmem_thread_variable` is an `int`,
kept modulo `2^32`. -/
def effect (s : State) (i : Thread) : Stmt → Option State
  | lock l =>
    if s.free l then some {s with holder := Function.update s.holder l (some i), seq := l.seqNext s.seq}
    else none
  | unlock l => some {s with holder := Function.update s.holder l none, seq := l.seqNext s.seq}
  | load => some {s with reg := Function.update s.reg i s.threadVariable}
  | store => some {s with threadVariable := (s.reg i+1)%2^32, increments := s.increments+1}
  | readLock => if s.holder globalmemRwlock = none then some {s with readers := i::s.readers} else none
  | readUnlock => some {s with readers := s.readers.erase i}
  | atomicInc => some {s with threadVariable2 := (s.threadVariable2+1)%2^32}
  | readSeqbegin => if s.seq%2 = 0 then some {s with seqNo := Function.update s.seqNo i s.seq} else none
  | readValue => some {s with value := Function.update s.value i s.threadVariable}
  | kthreadShouldStop | readSeqretry | msleep => some s

/-- One statement of thread `i`. -/
def exec (s : State) (i : Thread) : Option State :=
  (s.stmt i).bind fun st => (effect s i st).map fun t => t.goto i (target s i st)

inductive Act
  | thread (i : Thread)
  | kthreadStop (i : Thread)

def step (s : State) : Act → Option State
  | .thread i => exec s i
  | .kthreadStop i => some {s with shouldStop := Function.update s.shouldStop i true}

def loaded : State where
  pc _ := 0
  reg _ := 0
  seqNo _ := 0
  value _ := 0
  shouldStop _ := false
  holder _ := none
  readers := []
  seq := 0
  threadVariable := 0
  threadVariable2 := 0
  increments := 0

section Programs

/-- In both programs a `store` comes right after a `load`, and nothing jumps to one. -/
theorem store_after_load (i : Thread) (n : ℕ) :
    i.program[n+1]? = some store ↔ i.program[n]? = some load := by
  by_cases hn : n < 21
  · have hall : ∀ n, n < 21 → (i.program[n+1]? = some store ↔ i.program[n]? = some load) := by
      cases i <;> decide
    exact hall n hn
  · have hlen : i.program.length ≤ 21 := by cases i <;> decide
    rw [List.getElem?_eq_none (by omega),List.getElem?_eq_none (by omega)]
    simp

theorem no_jump_to_store (i : Thread) {n : ℕ} (h : i.program[n]? = some readSeqretry) :
    i.program[n-2]? ≠ some store := by
  have hn : n < 21 := by
    have := (List.getElem?_eq_some_iff.mp h).1
    have hlen : i.program.length ≤ 21 := by cases i <;> decide
    omega
  have hall : ∀ n, n < 21 → i.program[n]? = some readSeqretry → i.program[n-2]? ≠ some store := by
    cases i <;> decide
  exact hall n hn h

theorem start_not_store (i : Thread) : i.program[0]? ≠ some store := by cases i <;> decide

end Programs

theorem stmt_lt {s : State} {i : Thread} {st : Stmt} (h : s.stmt i = some st) : s.pc i < i.program.length :=
  (List.getElem?_eq_some_iff.mp h).1

/-- Only a `load` is followed by a `store`. -/
theorem target_not_store {s : State} {i : Thread} {st : Stmt} (h : s.stmt i = some st) (hst : st ≠ load) :
    i.program[target s i st]? ≠ some store := by
  have hnext : i.program[s.pc i+1]? ≠ some store := by
    rw [ne_eq,store_after_load]
    intro hload
    exact hst (Option.some.inj (h.symm.trans hload))
  cases st with
  | kthreadShouldStop =>
    simp only [target]
    split_ifs
    · simp
    · exact hnext
  | readSeqretry =>
    simp only [target]
    split_ifs
    · exact hnext
    · exact no_jump_to_store i h
  | msleep => exact start_not_store i
  | _ => exact hnext

@[simp] theorem stmt_goto (s : State) (i : Thread) (n : ℕ) : (s.goto i n).stmt i = i.program[n]? := by
  simp [State.stmt, State.goto]

theorem stmt_goto_of_ne {i j : Thread} (s : State) (n : ℕ) (h : j ≠ i) : (s.goto i n).stmt j = s.stmt j := by
  simp [State.stmt, State.goto, Function.update_of_ne h]

theorem effect_pc {s t : State} {i : Thread} {st : Stmt} (h : effect s i st = some t) : t.pc = s.pc := by
  unfold effect at h
  split at h <;> try split_ifs at h
  all_goals cases h; rfl

/-- A statement that is no part of an increment leaves the variable and what was loaded. -/
theorem effect_frame {s t : State} {i : Thread} {st : Stmt} (h : effect s i st = some t) (hload : st ≠ load)
    (hstore : st ≠ store) :
    t.reg = s.reg ∧ t.threadVariable = s.threadVariable ∧ t.increments = s.increments := by
  cases st <;> simp only [effect, Option.ite_none_right_eq_some, Option.some.injEq] at h
  case load => contradiction
  case store => contradiction
  case lock | readLock | readSeqbegin => obtain ⟨-,rfl⟩ := h; exact ⟨rfl,rfl,rfl⟩
  all_goals subst h; exact ⟨rfl,rfl,rfl⟩

/-- Thread `i` has loaded the variable and not stored it yet. -/
def State.Incrementing (s : State) (i : Thread) : Prop := s.stmt i = some store

/-- No increment begins while the other thread is in the middle of one. -/
def Separate (s : State) : Act → Prop
  | .thread i => s.stmt i = some load → ∀ j, ¬ s.Incrementing j
  | _ => True

/-- The variable has counted every increment, and an increment under way is the only one. -/
structure Inv (s : State) : Prop where
  counted : s.threadVariable = s.increments%2^32
  loaded : ∀ i, s.Incrementing i → s.reg i = s.threadVariable
  single : ∀ i j, s.Incrementing i → s.Incrementing j → i = j

theorem inv_loaded : Inv loaded := by
  have hnone : ∀ i, ¬ loaded.Incrementing i := fun i => start_not_store i
  exact ⟨rfl,fun i hi => absurd hi (hnone i),fun i _ hi => absurd hi (hnone i)⟩

theorem inv_exec {s t : State} {i : Thread} (h : exec s i = some t) (hC : Separate s (.thread i)) (hs : Inv s) :
    Inv t := by
  obtain ⟨hcounted,hloaded,hsingle⟩ := hs
  simp only [exec, Option.bind_eq_some_iff, Option.map_eq_some_iff] at h
  obtain ⟨st,hst,u,hu,rfl⟩ := h
  have hpc := effect_pc hu
  have hother : ∀ j, j ≠ i → ((u.goto i (target s i st)).Incrementing j ↔ s.Incrementing j) := by
    intro j hj
    unfold State.Incrementing
    rw [stmt_goto_of_ne u _ hj,State.stmt,State.stmt,hpc]
  by_cases hload : st = load
  · subst hload
    cases hu
    -- nobody else is in an increment, so what is loaded stays the value
    have hfree := hC hst
    have honly : ∀ j, (State.goto {s with reg := Function.update s.reg i s.threadVariable} i
        (target s i load)).Incrementing j → j = i := by
      intro j hj
      by_contra hne
      exact hfree j ((hother j hne).mp hj)
    refine ⟨hcounted,fun j hj => ?_,fun j k hj hk => (honly j hj).trans (honly k hk).symm⟩
    obtain rfl := honly j hj
    exact Function.update_self _ _ _
  have hnot : ¬ (u.goto i (target s i st)).Incrementing i := by
    unfold State.Incrementing
    rw [stmt_goto]
    exact target_not_store hst hload
  have hback : ∀ j, (u.goto i (target s i st)).Incrementing j → s.Incrementing j := by
    intro j hj
    by_cases hne : j = i
    · subst hne; exact absurd hj hnot
    · exact (hother j hne).mp hj
  by_cases hstore : st = store
  · subst hstore
    cases hu
    have hnone : ∀ j, ¬ (State.goto {s with threadVariable := (s.reg i+1)%2^32, increments := s.increments+1} i
        (target s i store)).Incrementing j := by
      intro j hj
      have := hsingle j i (hback j hj) hst
      subst this
      exact hnot hj
    refine ⟨?_,fun j hj => absurd hj (hnone j),fun j _ hj => absurd hj (hnone j)⟩
    show (s.reg i+1)%2^32 = (s.increments+1)%2^32
    rw [hloaded i hst,hcounted,Nat.mod_add_mod]
  · obtain ⟨hreg,hvar,hinc⟩ := effect_frame hu hload hstore
    refine ⟨?_,fun j hj => ?_,fun j k hj hk => hsingle j k (hback j hj) (hback k hk)⟩
    · show u.threadVariable = u.increments%2^32
      rw [hvar,hinc,hcounted]
    · show u.reg j = u.threadVariable
      rw [hreg,hvar]
      exact hloaded j (hback j hj)

theorem inv_step {s t : State} {a : Act} (h : step s a = some t) (hC : Separate s a) (hs : Inv s) : Inv t := by
  cases a with
  | thread i => exact inv_exec h hC hs
  | kthreadStop i =>
    cases h
    exact ⟨hs.counted,hs.loaded,hs.single⟩

/-- In a run in which the increments do not overlap none of them is lost. -/
theorem increments_counted {acts : List Act} {s : State} (hC : Meets step Separate loaded acts)
    (h : run step loaded acts = some s) : s.threadVariable = s.increments%2^32 :=
  (run_invariant_of_meets (fun _ _ _ => inv_step) hC h inv_loaded).counted

def separate (s : State) : Act → Bool
  | .thread i => s.stmt i ≠ some load || s.stmt .one ≠ some store && s.stmt .two ≠ some store
  | _ => true

theorem separate_iff (s : State) (a : Act) : separate s a = true ↔ Separate s a := by
  cases a with
  | thread i =>
    have hboth : (∀ j, ¬ s.Incrementing j) ↔ s.stmt .one ≠ some store ∧ s.stmt .two ≠ some store :=
      ⟨fun h => ⟨h .one,h .two⟩,fun h j => by cases j; exacts [h.1,h.2]⟩
    simp [separate, Separate, hboth, imp_iff_not_or]
  | kthreadStop => simp [separate, Separate]

/-- The second thread increments under the mutex while the first one still holds the spinlock. -/
theorem increments_counted_loop : ∃ acts s, run step loaded acts = some s ∧ s.increments = 6 ∧
    s.threadVariable = s.increments%2^32 := by
  let acts : List Act := List.replicate 8 (.thread .one) ++ List.replicate 5 (.thread .two) ++ [.thread .one] ++
    List.replicate 14 (.thread .two)
  obtain ⟨s,hs,hp⟩ := exists_of_run_any step loaded acts (fun s => s.increments = 6) (by decide)
  simp only [decide_eq_true_eq] at hp
  have hC : Meets step Separate loaded acts :=
    meets_of_check separate (fun s a => (separate_iff s a).mp) (by decide)
  exact ⟨acts,s,hs,hp,increments_counted hC hs⟩

/-- The first thread is inside the spinlock, the second one inside the mutex: one of the two
increments is lost. -/
theorem increment_lost : ¬ ∀ acts s, run step loaded acts = some s →
    (∀ i, ¬ s.Incrementing i) → s.threadVariable = s.increments%2^32 := by
  intro h
  obtain ⟨s,hs,hp⟩ := exists_of_run_any step loaded
    (List.replicate 7 (.thread .one) ++ List.replicate 4 (.thread .two) ++ [.thread .one])
    (fun s => s.stmt .one ≠ some store ∧ s.stmt .two ≠ some store ∧ s.threadVariable ≠ s.increments%2^32)
    (by decide)
  simp only [decide_eq_true_eq] at hp
  exact hp.2.2 (h _ s hs fun i => by cases i; exacts [hp.1,hp.2.1])

theorem exec_load {s : State} {i : Thread} (h : s.stmt i = some load) : exec s i =
    some (State.goto {s with reg := Function.update s.reg i s.threadVariable} i (s.pc i+1)) := by
  simp [exec, h, effect, target]

theorem exec_store {s : State} {i : Thread} (h : s.stmt i = some store) : exec s i =
    some (State.goto {s with threadVariable := (s.reg i+1)%2^32, increments := s.increments+1} i (s.pc i+1)) := by
  simp [exec, h, effect, target]

theorem exec_other {s t : State} {i j : Thread} (h : exec s i = some t) (hj : j ≠ i) : t.stmt j = s.stmt j := by
  simp only [exec, Option.bind_eq_some_iff, Option.map_eq_some_iff] at h
  obtain ⟨st,-,u,hu,rfl⟩ := h
  rw [stmt_goto_of_ne u _ hj,State.stmt,State.stmt,effect_pc hu]

/-- Two stores of the same loaded value count once. -/
theorem stores_overlap {s : State} {i j : Thread} (hij : j ≠ i) (hi : s.stmt i = some store)
    (hj : s.stmt j = some store) (hreg : s.reg i = s.reg j) :
    ∃ u, run step s [.thread i,.thread j] = some u ∧ ¬ u.Incrementing i ∧ ¬ u.Incrementing j ∧
      u.threadVariable = (s.reg i+1)%2^32 ∧ u.increments = s.increments+2 := by
  have hfirst := exec_store hi
  have hj' := (exec_other hfirst hij).trans hj
  have hsecond := exec_store hj'
  have hnot : ∀ {k : Thread} {v : State}, v.stmt k = some store → k.program[v.pc k+1]? ≠ some store :=
    fun hv => target_not_store hv nofun
  refine ⟨_,run_cons_eq_some.mpr ⟨_,hfirst,run_cons_eq_some.mpr ⟨_,hsecond,rfl⟩⟩,?_,?_,?_,rfl⟩
  · unfold State.Incrementing
    rw [stmt_goto_of_ne _ _ hij.symm]
    show State.stmt (State.goto _ i _) i ≠ _
    rw [stmt_goto]
    exact hnot hi
  · unfold State.Incrementing
    rw [stmt_goto]
    exact hnot hj'
  · rw [hreg]
    rfl

/-- A load inside an increment of the other thread can be continued to a state in which one of the
two is lost. -/
theorem lost_of_not_separate {acts : List Act} {s t : State} {i : Thread} (hC : Meets step Separate loaded acts)
    (h : run step loaded acts = some s) (ht : step s (.thread i) = some t) (hbad : ¬ Separate s (.thread i)) :
    ∃ more u, run step t more = some u ∧ (∀ j, ¬ u.Incrementing j) ∧ u.threadVariable ≠ u.increments%2^32 := by
  obtain ⟨hcounted,hloaded,-⟩ : Inv s := run_invariant_of_meets (fun _ _ _ => inv_step) hC h inv_loaded
  obtain ⟨hload,j,hj⟩ : s.stmt i = some load ∧ ∃ j, s.Incrementing j := by simpa [Separate] using hbad
  have hij : j ≠ i := by
    rintro rfl
    have hst : some store = some load := hj.symm.trans hload
    contradiction
  have hti : t.stmt i = some store := by
    rw [step,exec_load hload] at ht
    cases ht
    rw [stmt_goto]
    exact (store_after_load i _).mpr hload
  have htj : t.stmt j = some store := (exec_other ht hij).trans hj
  rw [step,exec_load hload] at ht
  cases ht
  obtain ⟨u,hu,hdone,hdonej,hvar,hinc⟩ := stores_overlap hij hti htj (by
    show Function.update s.reg i s.threadVariable i = Function.update s.reg i s.threadVariable j
    rw [Function.update_self,Function.update_of_ne hij,hloaded j hj])
  refine ⟨_,u,hu,fun k => ?_,?_⟩
  · cases i <;> cases j <;> cases k <;> first | contradiction | assumption
  · have hreg : Function.update s.reg i s.threadVariable i = s.threadVariable := Function.update_self _ _ _
    rw [hvar,hinc]
    show (Function.update s.reg i s.threadVariable i+1)%2^32 ≠ (s.increments+2)%2^32
    rw [hreg,hcounted]
    omega

section Exclusion

/-- The lock that a thread is inside of after a statement. -/
def Stmt.sectionAfter (h : Option Lock) : Stmt → Option Lock
  | lock l => some l
  | unlock _ => none
  | _ => h

/-- The lock whose critical section the `n`-th statement of the loop is in. -/
def Thread.held (i : Thread) (n : ℕ) : Option Lock := (i.program.take n).foldl Stmt.sectionAfter none

/-- What the rest of a section requires of its statements: no nesting, no jump out of it, and no
increment outside. -/
def Thread.bracketed (i : Thread) (n : ℕ) : Stmt → Bool
  | lock l => i.held n = none && i.held (n+1) = some l
  | unlock l => i.held n = some l && i.held (n+1) = none
  | kthreadShouldStop => i.held (n+1) = i.held n && i.held i.program.length = i.held n
  | readSeqretry => i.held (n+1) = i.held n && i.held (n-2) = i.held n
  | msleep => i.held 0 = i.held n
  | store => (i.held n).isSome && i.held (n+1) = i.held n
  | _ => i.held (n+1) = i.held n

theorem bracketed_of_stmt {s : State} {i : Thread} {st : Stmt} (h : s.stmt i = some st) :
    i.bracketed (s.pc i) st = true := by
  have hall : ∀ n, n < i.program.length → (i.program[n]?).all (i.bracketed n) = true := by
    cases i <;> decide
  have := hall _ (stmt_lt h)
  rw [State.stmt] at h
  rwa [h,Option.all_some] at this

/-- The section that thread `i` is in. -/
def State.held (s : State) (i : Thread) : Option Lock := i.held (s.pc i)

theorem held_target {s : State} {i : Thread} {st : Stmt} (h : s.stmt i = some st) :
    i.held (target s i st) = st.sectionAfter (s.held i) := by
  have hb := bracketed_of_stmt h
  unfold State.held
  cases st <;> simp only [Thread.bracketed, Bool.and_eq_true, decide_eq_true_eq] at hb <;>
    simp only [target, Stmt.sectionAfter]
  case lock | unlock | store => exact hb.2
  case kthreadShouldStop => split_ifs; exacts [hb.2,hb.1]
  case readSeqretry => split_ifs; exacts [hb.1,hb.2]
  all_goals exact hb

/-- A lock is held by the thread that is in its section. -/
def Exclusive (s : State) : Prop := ∀ l i, s.holder l = some i ↔ s.held i = some l

theorem exclusive_exec {s t : State} {i : Thread} (h : exec s i = some t) (hs : Exclusive s) : Exclusive t := by
  simp only [exec, Option.bind_eq_some_iff, Option.map_eq_some_iff] at h
  obtain ⟨st,hst,u,hu,rfl⟩ := h
  have hb := bracketed_of_stmt hst
  have hself : (u.goto i (target s i st)).held i = st.sectionAfter (s.held i) := by
    rw [← held_target hst]
    simp [State.held, State.goto]
  have hother : ∀ j, j ≠ i → (u.goto i (target s i st)).held j = s.held j := by
    intro j hj
    simp [State.held, State.goto, Function.update_of_ne hj, effect_pc hu]
  have keep : u.holder = s.holder → st.sectionAfter (s.held i) = s.held i → Exclusive (u.goto i (target s i st)) := by
    intro hholder hsection l j
    show u.holder l = some j ↔ _
    rw [hholder,hs l j]
    by_cases hj : j = i
    · rw [hj,hself,hsection]
    · rw [hother j hj]
  cases st <;> simp only [effect, Option.ite_none_right_eq_some, Option.some.injEq] at hu
  case lock l =>
    obtain ⟨hfree,rfl⟩ := hu
    simp only [Thread.bracketed, Bool.and_eq_true, decide_eq_true_eq] at hb
    have hnone : s.holder l = none := by
      simp only [State.free, Bool.and_eq_true, decide_eq_true_eq] at hfree
      exact hfree.1
    intro l' j
    show Function.update s.holder l (some i) l' = some j ↔ _
    by_cases hj : j = i
    · subst hj
      rw [hself]
      by_cases hl : l' = l
      · subst hl; simp [Stmt.sectionAfter]
      · have hout : s.held j ≠ some l' := by rw [State.held,hb.1]; nofun
        simp [Function.update_of_ne hl, hs l' j, hout, Stmt.sectionAfter, Ne.symm hl]
    · rw [hother j hj]
      by_cases hl : l' = l
      · subst hl
        have hout : s.held j ≠ some l' := by rw [ne_eq,← hs,hnone]; nofun
        simp [hout, Ne.symm hj]
      · rw [Function.update_of_ne hl,hs l' j]
  case unlock l =>
    subst hu
    simp only [Thread.bracketed, Bool.and_eq_true, decide_eq_true_eq] at hb
    have hmine : s.holder l = some i := (hs l i).mpr hb.1
    intro l' j
    show Function.update s.holder l none l' = some j ↔ _
    by_cases hj : j = i
    · subst hj
      rw [hself]
      by_cases hl : l' = l
      · subst hl; simp [Stmt.sectionAfter]
      · have hout : s.held j ≠ some l' := by rw [State.held,hb.1]; simpa using Ne.symm hl
        simp [Function.update_of_ne hl, hs l' j, hout, Stmt.sectionAfter]
    · rw [hother j hj]
      by_cases hl : l' = l
      · subst hl
        have hout : s.held j ≠ some l' := by
          rw [ne_eq,← hs,hmine]
          simpa using Ne.symm hj
        simp [hout]
      · rw [Function.update_of_ne hl,hs l' j]
  case readLock | readSeqbegin => obtain ⟨-,rfl⟩ := hu; exact keep rfl rfl
  all_goals subst hu; exact keep rfl rfl

/-- Sections under the same lock exclude each other: two increments that overlap are under
different locks. -/
theorem overlap_under_different_locks {acts : List Act} {s : State} (h : run step loaded acts = some s)
    {i j : Thread} (hij : i ≠ j) (hi : s.Incrementing i) : s.held i ≠ s.held j := by
  have hs : Exclusive s := by
    refine run_invariant (I := Exclusive) ?_ h fun l i => by cases i <;> simp [loaded, State.held, Thread.held]
    intro s a t hst hs
    cases a with
    | thread i => exact exclusive_exec hst hs
    | kthreadStop i => cases hst; exact hs
  intro heq
  have hb := bracketed_of_stmt hi
  simp only [Thread.bracketed, Bool.and_eq_true] at hb
  obtain ⟨l,hl⟩ := Option.isSome_iff_exists.mp hb.1
  have hmine := (hs l i).mpr hl
  have hyours := (hs l j).mpr (heq.symm.trans hl)
  exact hij (Option.some.inj (hmine.symm.trans hyours))

end Exclusion

end ExampleKernel.GlobalMem.Threads
