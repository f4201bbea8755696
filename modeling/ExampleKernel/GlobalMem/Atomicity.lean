import ExampleKernel.GlobalMem.Statements

/-! Reads, writes and clears of globalmem are linearizable in every run that keeps clears and
copies apart: the mutex does so for reads and writes, but `MEM_CLEAR` does not take it. -/
namespace ExampleKernel.GlobalMem.Concurrent
open ExampleKernel.Foundation ExampleKernel.Kernel ExampleKernel.GlobalMem

/-- Some process has cleared the cell in a clear that has yet to take effect. -/
def Machine.Covered (m : Machine) (i : ℕ) : Prop := ∃ q, (m.task q).clears i

/-- The array with the unfinished copy of the lock holder on top. -/
def Machine.view (m : Machine) (R : ℕ → UInt8) : ℕ → UInt8 :=
  match m.mutex with
  | some p => (m.task p).written R
  | none => R

/-- The lock, the frames and the book along a run. -/
structure Machine.Sound (m : Machine) : Prop where
  lock : ∀ p, m.mutex = some p ↔ (m.task p).pc.holds = true
  framed : ∀ p, (m.task p).framed
  book : m.book.Kept fun p => (m.task p).phase

/-- The array is what the operations so far make it, up to what is under way. -/
structure Machine.Replays (m : Machine) (R : ℕ → UInt8) : Prop where
  replay : run arrayStep (fun _ => 0) (m.book.entries.map Entry.op) = some R
  covered : ∀ i, m.Covered i → m.g.mem i = 0
  view : ∀ i, ¬ m.Covered i → m.g.mem i = m.view R i
  reads : ∀ p size ppos, (m.task p).call = .read size ppos → (m.task p).pc = .copy →
    (m.task p).bytes = slice R (m.task p).p (m.task p).bytes.length

theorem sound_load : load.Sound where
  lock := by simp [load, Task.ofCall, Pc.holds]
  framed := by simp [load, Task.framed]
  book := .empty

theorem replays_load : load.Replays fun _ => 0 where
  replay := rfl
  covered := fun _ _ => rfl
  view := fun _ _ => rfl
  reads := by simp [load]

theorem phase_update (m : Machine) (p : Pid) (t : Task) :
    (fun q => (Function.update m.task p t q).phase) =
      Function.update (fun q => (m.task q).phase) p t.phase := by
  funext q
  exact Function.apply_update (fun _ t => t.phase) m.task p t q

theorem sound_call {m : Machine} (h : m.Sound) {p : Pid} (hidle : (m.task p).pc = .idle) (c : Call) :
    Machine.Sound {m with
      task := Function.update m.task p (.ofCall c m.book.clock), book := m.book.tick} where
  lock q := by
    by_cases hq : q = p
    · subst hq
      have hm := h.lock q
      rw [hidle] at hm
      cases c <;> simpa [Task.ofCall, Pc.holds] using hm
    · simpa [Function.update_of_ne hq] using h.lock q
  framed q := by
    by_cases hq : q = p
    · subst hq; cases c <;> simp [Task.ofCall, Task.framed]
    · simpa [Function.update_of_ne hq] using h.framed q
  book := by
    rw [phase_update]
    have hphase : (Task.ofCall c m.book.clock).phase = .pending m.book.clock := by cases c <;> rfl
    rw [hphase]
    exact h.book.invoke p

/-- The machine after a statement of a process. -/
def Machine.after (m : Machine) (p : Pid) (n : Next) : Machine :=
  ⟨n.g,n.mutex,Function.update m.task p n.task,record m.book (m.task p) n.op⟩

section After
variable {m : Machine} {p : Pid} {n : Next}

@[simp] theorem after_self : (m.after p n).task p = n.task := Function.update_self _ _ _

theorem after_other {q : Pid} (hq : q ≠ p) : (m.after p n).task q = m.task q :=
  Function.update_of_ne hq _ _

theorem after_mutex (h : m.Sound) (ho : Obeys p m.mutex (m.task p) n) (q : Pid) :
    n.mutex = some q ↔ if q = p then n.task.pc.holds = true else (m.task q).pc.holds = true := by
  have hp := h.lock p
  have hq := h.lock q
  rw [ho.lock,ho.holds]
  by_cases hlock : (m.task p).pc = .lock
  · rw [ho.free hlock] at hq
    rw [if_pos hlock,if_pos hlock]
    split_ifs with hqp
    · simp [hqp]
    · simpa [Ne.symm hqp] using hq
  · rw [if_neg hlock,if_neg hlock]
    by_cases hunlock : (m.task p).pc = .unlock
    · rw [if_pos hunlock,if_pos hunlock]
      split_ifs with hqp
      · simp
      · rw [← hq,hp.mpr (by rw [hunlock]; rfl)]
        simpa using Ne.symm hqp
    · rw [if_neg hunlock,if_neg hunlock]
      split_ifs with hqp <;> [(rw [hqp]; exact hp); exact hq]

/-- The book is kept when a call moves on, takes effect or returns. -/
theorem after_book (h : m.Sound) (ho : Obeys p m.mutex (m.task p) n) :
    (m.after p n).book.Kept fun q => ((m.after p n).task q).phase := by
  have hphases : (fun q => ((m.after p n).task q).phase) =
      Function.update (fun q => (m.task q).phase) p n.task.phase := phase_update m p n.task
  rw [hphases]
  unfold Machine.after record
  split_ifs with hret
  · rw [(ho.returns hret).1]
    refine h.book.finish ?_
    rw [Task.phase,hret]
    rfl
  · cases hop : n.op with
    | none =>
      rw [ho.same hop hret,Function.update_eq_self]
      exact h.book.tick
    | some op =>
      obtain ⟨hpending,hpast⟩ := ho.pending (by rw [hop]; rfl)
      rw [hpast]
      exact h.book.log hpending op

theorem sound_after (h : m.Sound) (ho : Obeys p m.mutex (m.task p) n) : (m.after p n).Sound where
  lock q := by
    change n.mutex = some q ↔ _
    rw [after_mutex h ho]
    split_ifs with hq
    · rw [hq,after_self]
    · rw [after_other hq]
  framed q := by
    by_cases hq : q = p
    · subst hq; rw [after_self]; exact ho.framed (h.framed q)
    · rw [after_other hq]; exact h.framed q
  book := after_book h ho

/-- The operations in the book grow by what the statement enters. -/
theorem after_ops (ho : Obeys p m.mutex (m.task p) n) :
    (m.after p n).book.entries.map Entry.op = m.book.entries.map Entry.op ++ n.op.toList := by
  unfold Machine.after record
  split_ifs with hret
  · simp [(ho.returns hret).2, Book.finish, Book.tick]
  · cases n.op <;> simp [Book.log, Book.tick]

/-- The sequential array accepts what the statement enters. -/
theorem after_replay {R : ℕ → UInt8} (ho : Obeys p m.mutex (m.task p) n)
    (h : run arrayStep (fun _ => 0) (m.book.entries.map Entry.op) = some R)
    (hlegal : ∀ q bytes, n.op = some (.read q bytes) → bytes = slice R q bytes.length) :
    run arrayStep (fun _ => 0) ((m.after p n).book.entries.map Entry.op) = some (effect R n.op) := by
  rw [after_ops ho]
  refine run_append_eq_some.mpr ⟨R,h,?_⟩
  cases hop : n.op with
  | none => rfl
  | some op =>
    cases op with
    | read q bytes => simp [run_cons_eq_some, arrayStep, effect, ← hlegal q bytes hop]
    | write q bytes => rfl
    | clear => rfl
    | skip => rfl

end After

theorem holds_of_copying {t : Task} (h : t.copying = true) : t.pc.holds = true := by
  cases hpc : t.pc <;> simp_all [Task.copying, Pc.holds]

theorem written_of_not_copying {t : Task} (h : t.copying = false) (R : ℕ → UInt8) : t.written R = R := by
  cases hcall : t.call <;> cases hpc : t.pc <;> simp_all [Task.written, Task.copying]

/-- Without the lock a statement other than the end of a clear leaves the sequential array alone. -/
theorem effect_of_not_holds {t : Task} {mem : ℕ → UInt8} {n : Next} (hm : Moves t mem n)
    (hh : t.pc.holds = false) (hop : n.op ≠ some .clear) (R : ℕ → UInt8) : effect R n.op = R := by
  cases hop' : n.op with
  | none => rfl
  | some op =>
    cases op with
    | write q bytes =>
      rw [hm.write q bytes hop'] at hh
      contradiction
    | clear => exact absurd hop' hop
    | _ => rfl

theorem view_of_holder {m : Machine} (h : m.Sound) {p : Pid} (hp : (m.task p).pc.holds = true)
    (R : ℕ → UInt8) : m.view R = (m.task p).written R := by
  rw [Machine.view,(h.lock p).mpr hp]

theorem view_of_no_copying {m : Machine} (h : ∀ q, (m.task q).copying = false) (R : ℕ → UInt8) :
    m.view R = R := by
  unfold Machine.view
  split
  · exact written_of_not_copying (h _) R
  · rfl

theorem view_of_alone {m : Machine} (h : m.Sound) {p : Pid} (hp : ∀ q, q ≠ p → (m.task q).pc.holds = false)
    (R : ℕ → UInt8) : m.view R = (m.task p).written R := by
  by_cases hpp : (m.task p).pc.holds = true
  · exact view_of_holder h hpp R
  · have hnot : ∀ q, (m.task q).copying = false := by
      intro q
      rw [← Bool.not_eq_true]
      intro hq
      by_cases hqp : q = p
      · exact hpp (hqp ▸ holds_of_copying hq)
      · have := holds_of_copying hq
        rw [hp q hqp] at this
        contradiction
    rw [view_of_no_copying hnot,written_of_not_copying (hnot p)]

section Run
variable {m : Machine} {p : Pid} {n : Next} {R : ℕ → UInt8}

theorem alone_of_holds (h : m.Sound) (hp : (m.task p).pc.holds = true) {q : Pid} (hq : q ≠ p) :
    (m.task q).pc.holds = false := by
  rw [← Bool.not_eq_true,← h.lock q,(h.lock p).mpr hp,Option.some.injEq]
  exact Ne.symm hq

theorem view_after_quiet (h : m.Sound) (ho : Obeys p m.mutex (m.task p) n)
    (hm : Moves (m.task p) m.g.mem n) (hop : n.op ≠ some .clear)
    (hwritten : n.task.written (effect R n.op) = (m.task p).written R) :
    (m.after p n).view (effect R n.op) = m.view R := by
  by_cases hother : ∃ q, q ≠ p ∧ (m.task q).pc.holds = true
  · obtain ⟨q,hq,hholds⟩ := hother
    have hholds' : ((m.after p n).task q).pc.holds = true := by rw [after_other hq]; exact hholds
    rw [view_of_holder h hholds,view_of_holder (sound_after h ho) hholds',after_other hq,
      effect_of_not_holds hm (alone_of_holds h hholds (Ne.symm hq)) hop]
  · push Not at hother
    have hfree : ∀ q, q ≠ p → (m.task q).pc.holds = false := by simpa using hother
    rw [view_of_alone h hfree,view_of_alone (p := p) (sound_after h ho) ?_,after_self,hwritten]
    intro q hq
    rw [after_other hq]
    exact hfree q hq

theorem not_covered (h : ∀ q, (m.task q).clearing = false) (i : ℕ) : ¬ m.Covered i := by
  rintro ⟨q,hpc,hlt⟩
  have hq := h q
  simp only [Task.clearing, hpc, decide_true, Bool.true_and] at hq
  simp at hq
  omega

theorem covered_after (hsame : ∀ i, n.task.clears i ↔ (m.task p).clears i) (i : ℕ) :
    (m.after p n).Covered i ↔ m.Covered i := by
  refine exists_congr fun q => ?_
  by_cases hq : q = p
  · subst hq; rw [after_self]; exact hsame i
  · rw [after_other hq]

/-- The next byte of a read is the one in the sequential array. -/
theorem read_next (h : m.Sound) (hR : m.Replays R) {c : Choice} (hC : Separate m (.run p c)) {size : ℕ}
    {ppos : ℤ} (hcall : (m.task p).call = .read size ppos) (hpc : (m.task p).pc = .copy)
    (hcount : (m.task p).count ≠ 0) {bytes : List UInt8}
    (hbytes : bytes = (m.task p).bytes ++ [m.g.mem ((m.task p).p+(m.task p).bytes.length)]) :
    bytes = slice R (m.task p).p bytes.length := by
  have hview := hR.view _ (not_covered (hC.2 (.inl ⟨hpc,hcount⟩)) ((m.task p).p+(m.task p).bytes.length))
  rw [view_of_holder h (by rw [hpc]; rfl)] at hview
  simp only [Task.written, hcall] at hview
  rw [hbytes,List.length_append,List.length_singleton,slice_succ,← hR.reads p _ _ hcall hpc,hview]

/-- A clear or copy step keeps the array in step with the operations. -/
theorem array_after (h : m.Sound) (hR : m.Replays R) {c : Choice} (hC : Separate m (.run p c))
    (ho : Obeys p m.mutex (m.task p) n) (hm : Moves (m.task p) m.g.mem n)
    (ht : Touch (m.task p) m.g.mem n) :
    (∀ i, (m.after p n).Covered i → n.g.mem i = 0) ∧
    ∀ i, ¬ (m.after p n).Covered i → n.g.mem i = (m.after p n).view (effect R n.op) i := by
  -- during a clear nobody has a copy under way, so that no view differs from the array itself
  have hcalm : (m.task p).pc = .clear → ∀ q, ((m.after p n).task q).copying = false := by
    intro hpc q
    by_cases hq : q = p
    · rw [hq,after_self,← Bool.not_eq_true]
      intro hcopy
      have hholds := ho.holds
      rw [holds_of_copying hcopy,hpc] at hholds
      contradiction
    · rw [after_other hq]; exact hC.1 hpc q
  cases ht with
  | quiet hmem hwritten hclears hop =>
    simp only [covered_after hclears, hmem, view_after_quiet h ho hm hop (hwritten R)]
    exact ⟨hR.covered,hR.view⟩
  | store j v hpc hmem hop hwritten hclears =>
    have hbare := not_covered (hC.2 hpc)
    have hholds : (m.task p).pc.holds = true := by obtain ⟨hpc,-⟩ | hpc := hpc <;> rw [hpc] <;> rfl
    have hbare' : ∀ i, ¬ (m.after p n).Covered i := fun i hi => hbare i
      ((covered_after (fun i => iff_of_false (hclears i).1 (hclears i).2) i).mp hi)
    refine ⟨fun i hi => absurd hi (hbare' i),fun i _ => ?_⟩
    rw [view_of_alone (p := p) (sound_after h ho) ?_,after_self,hwritten,hmem,← view_of_holder h hholds]
    · exact congrFun (congrArg (Function.update · j v) (funext fun i => hR.view i (hbare i))) i
    · intro q hq
      rw [after_other hq]
      exact alone_of_holds h hholds hq
  | clear hpc hmem hop hlt hclears =>
    have hcov : ∀ i, (m.after p n).Covered i ↔ m.Covered i ∨ i = (m.task p).cleared := by
      intro i
      constructor
      · rintro ⟨q,hq⟩
        by_cases hqp : q = p
        · rw [hqp,after_self] at hq
          exact ((hclears i).mp hq).imp (fun hq => ⟨p,hq⟩) id
        · rw [after_other hqp] at hq
          exact .inl ⟨q,hq⟩
      · rintro (⟨q,hq⟩ | hi)
        · by_cases hqp : q = p
          · exact ⟨p,by rw [after_self]; exact (hclears i).mpr (.inl (hqp ▸ hq))⟩
          · exact ⟨q,by rw [after_other hqp]; exact hq⟩
        · exact ⟨p,by rw [after_self]; exact (hclears i).mpr (.inr hi)⟩
    rw [hop,view_of_no_copying (hcalm hpc),hmem]
    refine ⟨fun i hi => ?_,fun i hi => ?_⟩
    · by_cases hij : i = (m.task p).cleared
      · rw [hij,Function.update_self]
      · rw [Function.update_of_ne hij]
        exact hR.covered i (((hcov i).mp hi).resolve_right hij)
    · rw [hcov,not_or] at hi
      rw [Function.update_of_ne hi.2,hR.view i hi.1,view_of_no_copying (hC.1 hpc)]
      rfl
  | cleared hpc hmem hop hlast hclears =>
    rw [hop,view_of_no_copying (hcalm hpc),hmem]
    have hzero : ∀ i, i < globalmemSize → Function.update m.g.mem (m.task p).cleared 0 i = 0 := by
      intro i hi
      by_cases hij : i = (m.task p).cleared
      · rw [hij,Function.update_self]
      · rw [Function.update_of_ne hij]
        exact hR.covered i ⟨p,hpc,by omega⟩
    have hcover : ∀ i, (m.after p n).Covered i → i < globalmemSize := by
      rintro i ⟨q,hq⟩
      have hF := (sound_after h ho).framed q
      simp only [Task.framed, hq.1] at hF
      exact hq.2.trans hF
    refine ⟨fun i hi => hzero i (hcover i hi),fun i hi => ?_⟩
    by_cases hin : i < globalmemSize
    · rw [hzero i hin]
      simp [effect, blit, hin]
    · rw [Function.update_of_ne (by omega),hR.view i ?_,view_of_no_copying (hC.1 hpc)]
      · simp [effect, blit, hin]
      · rintro ⟨q,hq⟩
        have hF := h.framed q
        simp only [Task.framed, hq.1] at hF
        exact hin (hq.2.trans hF)

theorem replays_after (h : m.Sound) (hR : m.Replays R) {c : Choice} (hC : Separate m (.run p c))
    (ho : Obeys p m.mutex (m.task p) n) (hm : Moves (m.task p) m.g.mem n)
    (ht : Touch (m.task p) m.g.mem n) : (m.after p n).Replays (effect R n.op) where
  replay := by
    refine after_replay ho hR.replay fun q bytes hop => ?_
    obtain ⟨rfl,rfl | ⟨⟨size,ppos,hcall⟩,hpc,hcount,hbytes⟩⟩ := hm.read q bytes hop
    · rfl
    · exact read_next h hR hC hcall hpc hcount hbytes
  covered := (array_after h hR hC ho hm ht).1
  view := (array_after h hR hC ho hm ht).2
  reads q size ppos hcall hpc := by
    by_cases hq : q = p
    · rw [hq,after_self] at hcall hpc ⊢
      obtain ⟨hop,hnil | ⟨hp,hpc',hcount,hbytes⟩⟩ := hm.copy hpc
      · rw [hnil]; rfl
      · rw [ho.call] at hcall
        rw [hop,hp]
        exact read_next h hR hC hcall hpc' hcount (hbytes size ppos hcall)
    · rw [after_other hq] at hcall hpc ⊢
      have hfree := alone_of_holds h (by rw [hpc]; rfl : (m.task q).pc.holds = true) (Ne.symm hq)
      by_cases hop : n.op = some .clear
      · have hclear : (m.task p).pc = .clear := by
          cases ht <;> first | assumption | contradiction
        have hnot := hC.1 hclear q
        have hnil : (m.task q).bytes = [] := by simpa [Task.copying, hpc] using hnot
        rw [hnil]
        rfl
      · rw [effect_of_not_holds hm hfree hop]
        exact hR.reads q size ppos hcall hpc

end Run

theorem entries_after (m : Machine) (p : Pid) (n : Next) :
    m.book.entries ⊆ (m.after p n).book.entries := by
  unfold Machine.after record
  split_ifs
  · exact List.Subset.refl _
  · cases n.op with
    | none => exact List.Subset.refl _
    | some op => exact List.subset_append_left _ _

theorem entered_after {m : Machine} {p : Pid} {n : Next} (ho : Obeys p m.mutex (m.task p) n) {op : ArrayOp}
    (hop : n.op = some op) :
    ∃ e ∈ (m.after p n).book.entries, e.invoked = (m.task p).id ∧ e.op = op := by
  have hret : (m.task p).pc ≠ .ret := by
    intro hret
    rw [(ho.returns hret).2] at hop
    contradiction
  refine ⟨⟨(m.task p).id,m.book.clock,op⟩,?_,rfl,rfl⟩
  simp [Machine.after, record, hret, hop, Book.log]

/-- A step is a new call or a statement. -/
theorem step_cases {m m' : Machine} {a : Act} (h : step m a = some m') :
    (∃ p c, a = .call p c ∧ (m.task p).pc = .idle ∧ m' = {m with
      task := Function.update m.task p (.ofCall c m.book.clock), book := m.book.tick}) ∨
    ∃ p c n, a = .run p c ∧ statement p m.g m.mutex (m.task p) c = some n ∧ m' = m.after p n := by
  cases a with
  | call p c =>
    simp only [step, Option.ite_none_right_eq_some, Option.some.injEq] at h
    exact .inl ⟨p,c,rfl,h.1,h.2.symm⟩
  | run p c =>
    simp only [step, Option.map_eq_some_iff] at h
    obtain ⟨n,hn,rfl⟩ := h
    exact .inr ⟨p,c,n,rfl,hn,rfl⟩

/-- What holds of every run, whatever the clears do. -/
structure Machine.Kept (m : Machine) : Prop where
  sound : m.Sound
  told : ∀ p, (m.task p).told m.book.entries

theorem kept_step {m m' : Machine} {a : Act} (h : step m a = some m') (hm : m.Kept) : m'.Kept := by
  obtain ⟨p,c,-,hidle,rfl⟩ | ⟨p,c,n,-,hst,rfl⟩ := step_cases h
  · refine ⟨sound_call hm.sound hidle c,fun q => ?_⟩
    by_cases hq : q = p
    · subst hq; cases c <;> simp [Task.ofCall, Task.told, Task.asked]
    · simp only [Function.update_of_ne hq]
      exact hm.told q
  · have ho := statement_obeys hst
    refine ⟨sound_after hm.sound ho,fun q => ?_⟩
    have hmono := (hm.told q).mono (entries_after m p n)
    by_cases hq : q = p
    · subst hq
      rw [after_self]
      exact statement_told (hm.sound.framed q) hmono (fun _ hop => entered_after ho hop) hst
    · rw [after_other hq]; exact hmono

theorem replays_call {m : Machine} {R : ℕ → UInt8} (h : m.Sound) (hR : m.Replays R) {p : Pid}
    (hidle : (m.task p).pc = .idle) (c : Call) : Machine.Replays {m with
      task := Function.update m.task p (.ofCall c m.book.clock), book := m.book.tick} R := by
  have hclears : ∀ q i, (Function.update m.task p (.ofCall c m.book.clock) q).clears i ↔
      (m.task q).clears i := by
    intro q i
    by_cases hq : q = p
    · subst hq; cases c <;> simp [Task.clears, Task.ofCall, hidle]
    · rw [Function.update_of_ne hq]
  have hview : Machine.view {m with
      task := Function.update m.task p (.ofCall c m.book.clock), book := m.book.tick} R = m.view R := by
    unfold Machine.view
    cases hm : m.mutex with
    | none => rfl
    | some q =>
      have hq : q ≠ p := by
        rintro rfl
        have := (h.lock q).mp hm
        rw [hidle] at this
        contradiction
      simp only [Function.update_of_ne hq]
  refine ⟨hR.replay,fun i hi => ?_,fun i hi => ?_,fun q size ppos hcall hpc => ?_⟩
  · exact hR.covered i (hi.imp fun q hq => (hclears q i).mp hq)
  · rw [hview]
    exact hR.view i fun hc => hi (hc.imp fun q hq => (hclears q i).mpr hq)
  · have hq : q ≠ p := by
      rintro rfl
      cases c <;> simp [Task.ofCall] at hpc
    simp only [Function.update_of_ne hq] at hcall hpc ⊢
    exact hR.reads q size ppos hcall hpc

theorem replays_step {m m' : Machine} {a : Act} (h : step m a = some m') (hC : Separate m a)
    (hm : m.Sound) (hR : ∃ R, m.Replays R) : ∃ R, m'.Replays R := by
  obtain ⟨R,hR⟩ := hR
  obtain ⟨p,c,-,hidle,rfl⟩ | ⟨p,c,n,rfl,hst,rfl⟩ := step_cases h
  · exact ⟨R,replays_call hm hR hidle c⟩
  · have hF := hm.framed p
    exact ⟨_,replays_after hm hR hC (statement_obeys hst) (statement_moves hF hst) (statement_touch hF hst)⟩

/-- Reads, writes and clears are atomic: there is an order of them, consistent with real time, in
which each read returns what is there, and with no access under way the array is its result. -/
def Machine.Atomic (m : Machine) : Prop :=
  Linearizable arrayStep (fun _ => 0) m.book.entries m.book.returned fun R =>
    (∀ p, (m.task p).copying = false ∧ (m.task p).clearing = false) → m.g.mem = R

/-- Every run that keeps clears and copies apart is atomic. Each returned call has one entry in the order: a
transfer that returns a number of bytes the one that it should, at the position that it was given, and a clear
the clear. -/
theorem atomic_of_separate {acts : List Act} {m : Machine} (h : run step load acts = some m)
    (hC : Meets step Separate load acts) :
    m.Atomic ∧
    (∀ id r, m.book.returned id = some r → ∃! e, e ∈ m.book.entries ∧ e.invoked = id) ∧
    (∀ p, (m.task p).pc = .ret →
      (∃! e, e ∈ m.book.entries ∧ e.invoked = (m.task p).id) ∧
      (0 < (m.task p).ret → (m.task p).located ∧ (m.task p).sent ∧
        (m.task p).ret = (m.task p).bytes.length ∧ (m.task p).booked m.book.entries) ∧
      ((m.task p).call = .ioctl memClear → (m.task p).ret = 0 ∧
        ∃ e ∈ m.book.entries, e.invoked = (m.task p).id ∧ e.op = .clear)) := by
  have hload : load.Kept := ⟨sound_load,fun _ => trivial⟩
  obtain ⟨hm,R,hR⟩ := run_invariant_of_meets (I := fun m => m.Kept ∧ ∃ R, m.Replays R)
    (fun _ _ _ hst hc hi => ⟨kept_step hst hi.1,replays_step hst hc hi.1.sound hi.2⟩)
    hC h ⟨hload,_,replays_load⟩
  refine ⟨hm.sound.book.linearizable hR.replay fun hcalm => ?_,fun id r => hm.sound.book.complete,fun p hpc => ?_⟩
  · funext i
    rw [hR.view i (not_covered (fun q => (hcalm q).2) i),view_of_no_copying fun q => (hcalm q).1]
  · have htold := hm.told p
    simp only [Task.told, hpc] at htold
    refine ⟨?_,htold.1,fun hcall => ?_⟩
    · obtain ⟨e,he,hid⟩ := hm.sound.book.past p (m.task p).id (by rw [Task.phase,hpc]; rfl)
      exact ⟨e,⟨he,hid⟩,fun d hd => hm.sound.book.entry_eq hd.1 he (hd.2.trans hid.symm)⟩
    · obtain ⟨hret,e,he,hid,hop⟩ := htold.2 hcall
      exact ⟨hret,e,he,hid,hop.trans (by rw [Task.outcome,hcall])⟩

/-- Without ioctls there is nothing to keep apart. -/
theorem separate_of_no_ioctl {acts : List Act} (h : ∀ p cmd, .call p (.ioctl cmd) ∉ acts) :
    Meets step Separate load acts := by
  refine meets_of_invariant (I := fun m => ∀ p, (m.task p).pc ≠ .clear ∧ (m.task p).pc ≠ .switch)
    (fun a ha m m' hst hm q => ?_) (fun a _ m hm => ?_) (fun p => by simp [load])
  · obtain ⟨p,c,rfl,-,rfl⟩ | ⟨p,c,n,-,hn,rfl⟩ := step_cases hst
    · by_cases hq : q = p
      · subst hq
        cases c with
        | ioctl cmd => exact absurd ha (h q cmd)
        | _ => simp [Task.ofCall]
      · simpa [Function.update_of_ne hq] using hm q
    · by_cases hq : q = p
      · subst hq
        rw [after_self]
        exact statement_keeps_out hn (hm q)
      · rw [after_other hq]; exact hm q
  · cases a with
    | call p c => trivial
    | run p c => exact ⟨fun hpc => absurd hpc (hm p).1,fun _ q => by simp [Task.clearing, hm q]⟩

/-- A read that waits for a write and sees all of it. -/
theorem atomic_of_separate_read : ∃ acts m, run step load acts = some m ∧
    m.book.entries.map Entry.op = [.write 0 [1,1],.read 0 [1,1]] ∧ m.Atomic := by
  obtain ⟨m,hm,hp⟩ := exists_of_run_any step load
    (.call 1 (.write 2 0 fun _ => 1) :: .call 2 (.read 2 0) :: .run 2 .go ::
      List.replicate 7 (.run 1 .go) ++ List.replicate 9 (.run 2 .go))
    (fun m => m.book.entries.map Entry.op = [.write 0 [1,1],.read 0 [1,1]]) (by decide)
  have hC : Meets step Separate load (.call 1 (.write 2 0 fun _ => 1) :: .call 2 (.read 2 0) ::
      .run 2 .go :: List.replicate 7 (.run 1 .go) ++ List.replicate 9 (.run 2 .go)) :=
    separate_of_no_ioctl (by simp)
  exact ⟨_,m,hm,by simpa using hp,(atomic_of_separate hm hC).1⟩

/-- A `memset` under way runs to its end. -/
theorem clear_finishes {m : Machine} {p : Pid} {cmd : UInt32} {k : ℕ} (hcall : (m.task p).call = .ioctl cmd)
    (hpc : (m.task p).pc = .clear) (hk : (m.task p).cleared+(k+1) = globalmemSize) :
    ∃ m', run step m (List.replicate (k+1) (.run p .go)) = some m' ∧ (m'.task p).pc = .ret ∧
      m'.book.entries.map Entry.op = m.book.entries.map Entry.op ++ [.clear] := by
  induction k generalizing m with
  | zero =>
    obtain ⟨n,hst,hret,hop⟩ : ∃ n, statement p m.g m.mutex (m.task p) .go = some n ∧
        n.task.pc = .ret ∧ n.op = some .clear := by
      simp [statement, hcall, globalmemIoctl, hpc, hk]
    refine ⟨m.after p n,run_cons_eq_some.mpr ⟨_,by simp only [step, hst]; rfl,rfl⟩,?_,?_⟩
    · rw [after_self,hret]
    · rw [after_ops (statement_obeys hst),hop]; rfl
  | succ k ih =>
    have hnot : (m.task p).cleared+1 ≠ globalmemSize := by omega
    obtain ⟨n,hst,htask,hop⟩ : ∃ n, statement p m.g m.mutex (m.task p) .go = some n ∧
        n.task = {m.task p with cleared := (m.task p).cleared+1} ∧ n.op = none := by
      simp [statement, hcall, globalmemIoctl, hpc, hnot]
    have hself : (m.after p n).task p = {m.task p with cleared := (m.task p).cleared+1} := by
      rw [after_self,htask]
    obtain ⟨m',hrun,hret,hops⟩ := ih (m := m.after p n) (by rw [hself]; exact hcall)
      (by rw [hself]; exact hpc) (by rw [hself]; simp only; omega)
    refine ⟨m',run_cons_eq_some.mpr ⟨_,by simp only [step, hst]; rfl,hrun⟩,hret,?_⟩
    rw [hops,after_ops (statement_obeys hst),hop]
    simp

/-- Whole writes of equal bytes and whole clears never let a read see two different bytes. -/
theorem no_torn_read {ops : List ArrayOp} {R R' : ℕ → UInt8} (heq : R 0 = R 1)
    (hops : ∀ op ∈ ops, op = .write 0 [1,1] ∨ op = .read 0 [0,1] ∨ op = .clear)
    (h : run arrayStep R ops = some R') : ArrayOp.read 0 [0,1] ∉ ops := by
  induction ops generalizing R with
  | nil => simp
  | cons op ops ih =>
    obtain ⟨S,hS,hrest⟩ := run_cons_eq_some.mp h
    have hops' : ∀ op ∈ ops, op = .write 0 [1,1] ∨ op = .read 0 [0,1] ∨ op = .clear :=
      fun op hop => hops op (List.mem_cons_of_mem _ hop)
    obtain rfl | rfl | rfl := hops op List.mem_cons_self
    · cases hS
      simpa using ih (by simp [paste]) hops' hrest
    · simp only [arrayStep, Option.ite_none_right_eq_some] at hS
      have hseen : [0,1] = [R 0,R 1] := hS.1
      simp only [List.cons.injEq] at hseen
      rw [← hseen.1,← hseen.2.1] at heq
      contradiction
    · cases hS
      simpa using ih (by simp [blit, globalmemSize]) hops' hrest

def Call.isIoctl : Call → Bool
  | .ioctl _ => true
  | _ => false

theorem ioctl_of_isIoctl {c : Call} (h : c.isIoctl = true) : ∃ cmd, c = .ioctl cmd := by
  cases c with
  | ioctl cmd => exact ⟨cmd,rfl⟩
  | _ => contradiction

/-- A read that runs inside a clear returns one cleared and one old byte. -/
theorem read_inside_clear : ¬ ∀ acts m, run step load acts = some m → m.Atomic := by
  intro h
  obtain ⟨m,hm,hp⟩ := exists_of_run_any step load
    (.call 1 (.write 2 0 fun _ => 1) :: List.replicate 7 (.run 1 .go) ++
      .call 2 (.ioctl memClear) :: List.replicate 2 (.run 2 .go) ++
      .call 3 (.read 2 0) :: List.replicate 10 (.run 3 .go))
    (fun m => (m.task 2).call.isIoctl && decide ((m.task 2).pc = .clear ∧ (m.task 2).cleared = 1 ∧
      m.book.entries.map Entry.op = [.write 0 [1,1],.read 0 [0,1]])) (by decide)
  simp only [Bool.and_eq_true, decide_eq_true_eq] at hp
  obtain ⟨hioctl,hpc,hcleared,hops⟩ := hp
  obtain ⟨cmd,hcall⟩ := ioctl_of_isIoctl hioctl
  obtain ⟨m',hm',-,hops'⟩ := clear_finishes (k := 4094) hcall hpc (by rw [hcleared]; rfl)
  obtain ⟨order,hperm,-,R,hrun,-⟩ := h _ m' (run_append_eq_some.mpr ⟨m,hm,hm'⟩)
  have hmem : ∀ op, op ∈ order.map Entry.op ↔ op ∈ [.write 0 [1,1],.read 0 [0,1],.clear] := by
    intro op
    rw [(hperm.map Entry.op).mem_iff,hops',hops]
    rfl
  exact no_torn_read rfl (fun op hop => by simpa using (hmem op).mp hop) hrun ((hmem _).mpr (by simp))

end ExampleKernel.GlobalMem.Concurrent
