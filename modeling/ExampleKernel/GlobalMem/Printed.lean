import ExampleKernel.GlobalMem.App

/-! What the processes of the test program print: never a mixture of two texts, whatever the clears do. -/
namespace ExampleKernel.GlobalMem.Concurrent.App
open ExampleKernel.Foundation ExampleKernel.Kernel ExampleKernel.GlobalMem

/-- A printed text is a prefix of what the device held, and all of it where no byte was cleared meanwhile.
`printf` runs off the end of the buffer only behind a text that is too long for it. -/
structure Printed.Sound (e : Printed) : Prop where
  text : ∀ u, e.text = some u → u <+: e.held.chars ∧ (e.disturbed = false → u = e.held.chars)
  overrun : e.text = none → e.target.size ≤ e.held.chars.length

/-- What a process knows of the device, of which `disturbed` tells whether a byte was cleared since a write last
took the mutex. -/
structure Process.Agrees (pr : Process) (t : Task) (mem : ℕ → UInt8) (disturbed : Prop) : Prop where
  idle : (∀ r, pr.stage ≠ .inside r) → t.pc = .idle
  call : ∀ r, pr.stage = .inside r → t.call = r.call 0
  transfers : ∀ r n, pr.stage = .inside r → r.size = some n → Transfers t n
  register : pr.stage = .inside .regCurrentTask → t.pc ≠ .clear
  seek : ∀ r n, pr.stage = .call r → r.size = some n → pr.fpos = 0
  writes : ∀ line, pr.stage = .inside (.write line) → t.pc = .copy → Worn disturbed mem t.bytes.length line.chars
  reads : ∀ target, pr.stage = .inside (.read target) → t.pc = .copy →
    Worn disturbed mem (pr.held.chars.length+1) pr.held.chars ∧
    Worn disturbed (fun i => t.bytes.getD i 0) (min (pr.held.chars.length+1) t.bytes.length) pr.held.chars
  delivered : ∀ target, pr.stage = .inside (.read target) → past t.pc = true →
    Worn (pr.disturbed = true) (fun i => t.bytes.getD i 0) (min (pr.held.chars.length+1) target.size) pr.held.chars
  received : ∀ target, pr.stage = .printf target →
    Worn (pr.disturbed = true) pr.buf (min (pr.held.chars.length+1) target.size) pr.held.chars
  printed : ∀ e ∈ pr.printed, e.Sound

/-- What holds of every run. -/
structure Inv (s : Sys) : Prop where
  sound : s.machine.Sound
  agrees : ∀ p, (s.process p).Agrees (s.machine.task p) s.machine.g.mem (s.disturbed = true)
  held : (∀ p line, (s.process p).stage = .inside (.write line) → (s.machine.task p).pc ≠ .copy) →
    Worn (s.disturbed = true) s.machine.g.mem (s.held.chars.length+1) s.held.chars
  alone : ∀ p, s.alone p = true → (s.machine.task p).call = .ioctl memClear → (s.machine.task p).pc = .clear →
    ∀ i < (s.machine.task p).cleared, s.machine.g.mem i = 0

section Agrees
variable {pr : Process} {t : Task} {mem : ℕ → UInt8} {d : Prop}

/-- A process that is not copying does not look at the device. -/
theorem Process.Agrees.elsewhere (h : pr.Agrees t mem d) (hpc : t.pc ≠ .copy) (mem' : ℕ → UInt8) (d' : Prop) :
    pr.Agrees t mem' d' := {h with
  writes := fun _ _ hcopy => absurd hcopy hpc
  reads := fun _ _ hcopy => absurd hcopy hpc}

/-- A byte is cleared under the copy of a process. -/
theorem Process.Agrees.zero (h : pr.Agrees t mem d) (j : ℕ) : pr.Agrees t (Function.update mem j 0) True := {h with
  writes := fun line hstage hcopy => (h.writes line hstage hcopy).zero j
  reads := fun target hstage hcopy =>
    ⟨(h.reads target hstage hcopy).1.zero j,(h.reads target hstage hcopy).2.imp fun _ => trivial⟩}

/-- Outside a system call only the stage counts. -/
theorem Process.Agrees.outside (h : pr.Agrees t mem d) {pr' : Process} (hstage : ∀ r, pr.stage ≠ .inside r)
    (hstage' : ∀ r, pr'.stage ≠ .inside r) (hseek : ∀ r n, pr'.stage = .call r → r.size = some n → pr'.fpos = 0)
    (hprintf : ∀ target, pr'.stage ≠ .printf target) (hprinted : ∀ e ∈ pr'.printed, e.Sound) :
    pr'.Agrees t mem d where
  idle := fun _ => h.idle hstage
  call := fun r hr => absurd hr (hstage' r)
  transfers := fun r _ hr => absurd hr (hstage' r)
  register := fun hr => absurd hr (hstage' _)
  seek := hseek
  writes := fun _ hr => absurd hr (hstage' _)
  reads := fun _ hr => absurd hr (hstage' _)
  delivered := fun _ hr => absurd hr (hstage' _)
  received := fun target hr => absurd hr (hprintf target)
  printed := hprinted

/-- The return of its system call: what a read has delivered is in the buffer. -/
theorem Process.Agrees.finish (h : pr.Agrees t mem d) {r : Request} (hstage : pr.stage = .inside r)
    (hret : t.pc = .ret) {t' : Task} (hidle : t'.pc = .idle) : (pr.finish r t).Agrees t' mem d := by
  have hout : ∀ r', (pr.finish r t).stage ≠ .inside r' := by
    intro r' hr'
    cases r <;> simp [Process.finish] at hr'
  have hcall : ∀ r', (pr.finish r t).stage ≠ .call r' := by
    intro r' hr'
    cases r <;> simp [Process.finish] at hr'
  have hprinted : (pr.finish r t).printed = pr.printed := by cases r <;> rfl
  refine ⟨fun _ => hidle,fun _ hr => absurd hr (hout _),fun _ _ hr => absurd hr (hout _),
    fun hr => absurd hr (hout _),fun _ _ hr => absurd hr (hcall _),fun _ hr => absurd hr (hout _),
    fun _ hr => absurd hr (hout _),
    fun _ hr => absurd hr (hout _),fun target htarget => ?_,by rw [hprinted]; exact h.printed⟩
  cases r with
  | read target' =>
    cases htarget
    have hlength := (h.transfers _ _ hstage rfl).done (by rw [hret]; rfl)
    refine (h.delivered target hstage (by rw [hret]; rfl)).of_eq fun i hi => ?_
    have hlt : i < t.bytes.length := by omega
    simp [Process.finish, paste, hlt]
  | _ => simp [Process.finish] at htarget

theorem worn_append {bytes text : List UInt8} (hmem : Worn d mem (text.length+1) text)
    (hbytes : Worn d (fun i => bytes.getD i 0) (min (text.length+1) bytes.length) text) :
    Worn d (fun i => (bytes ++ [mem bytes.length]).getD i 0)
      (min (text.length+1) (bytes ++ [mem bytes.length]).length) text := by
  intro i hi
  rw [List.length_append,List.length_singleton] at hi
  obtain hlt | rfl := Nat.lt_succ_iff_lt_or_eq.mp (lt_min_iff.mp hi).2
  · simp only [List.getD_append _ _ _ _ hlt]
    exact hbytes i (lt_min (lt_min_iff.mp hi).1 hlt)
  · simp only [List.getD_append_right _ _ _ _ le_rfl, Nat.sub_self]
    exact hmem _ (lt_min_iff.mp hi).1

/-- A statement of a read by the process itself. -/
theorem Process.Agrees.read {s : Sys} {target : Target} {next : Next} (h : pr.Agrees t mem (s.disturbed = true))
    (hstage : pr.stage = .inside (.read target)) (hr : Reads mem target.size t next) (hcall : next.task.call = t.call)
    (hheld : t.pc = .lock → Worn (s.disturbed = true) mem (s.held.chars.length+1) s.held.chars) :
    (pr.follow s (.read target) t).Agrees next.task mem (s.disturbed = true) := by
  by_cases hret : t.pc = .ret
  · rw [Process.follow,if_pos hret]
    exact h.finish hstage hret (hr.returns hret)
  rw [Process.follow,if_neg hret]
  refine ⟨fun hout => absurd hstage (hout _),fun r hr' => ?_,fun r n hr' hn => ?_,
    fun hr' => (by cases hstage.symm.trans hr'),fun _ _ hr' => (by cases hstage.symm.trans hr'),
    fun _ hr' => (by cases hstage.symm.trans hr'),
    fun target' htarget hcopy => ?_,fun target' htarget hpast => ?_,
    fun _ hr' => (by cases hstage.symm.trans hr'),h.printed⟩
  · cases hstage.symm.trans hr'
    exact hcall.trans (h.call _ hstage)
  · cases hstage.symm.trans hr'
    cases hn
    exact hr.transfers hret
  · by_cases hlock : t.pc = .lock
    · simp only [hlock, if_true]
      refine ⟨hheld hlock,fun i hi => ?_⟩
      rw [(hr.lock hlock).2] at hi
      exact absurd (lt_min_iff.mp hi).2 (Nat.not_lt_zero i)
    by_cases hpc : t.pc = .copy
    · simp only [hlock, if_false]
      obtain ⟨hmem,hbytes⟩ := h.reads target hstage hpc
      rw [(hr.copy hpc).1]
      exact ⟨hmem,worn_append hmem hbytes⟩
    · exact absurd hcopy (hr.other hlock hpc).1
  · cases hstage.symm.trans htarget
    by_cases hlock : t.pc = .lock
    · rw [(hr.lock hlock).1] at hpast
      contradiction
    by_cases hpc : t.pc = .copy
    · simp only [hpc, reduceCtorEq, if_true, if_false]
      obtain ⟨hmem,hbytes⟩ := h.reads target hstage hpc
      have hlength := (hr.transfers hret).done hpast
      have hall := worn_append hmem hbytes
      rwa [← (hr.copy hpc).1,hlength] at hall
    · simp only [hlock, hpc, if_false]
      obtain ⟨hbefore,hbytes⟩ := (hr.other hlock hpc).2 hpast
      rw [hbytes]
      exact h.delivered target hstage hbefore

theorem worn_store {n : ℕ} {line : Line} (h : Worn d mem n line.chars) :
    Worn d (Function.update mem n (line.buf n)) (n+1) line.chars := by
  refine Worn.succ (fun i hi => ?_) (.inl (Function.update_self _ _ _))
  rw [Function.update_of_ne hi.ne]
  exact h i hi

/-- A statement of a write by the process itself. -/
theorem Process.Agrees.write {s : Sys} {line : Line} {next : Next} (h : pr.Agrees t mem d)
    (hstage : pr.stage = .inside (.write line)) (hw : Writes mem line t next) (hcall : next.task.call = t.call)
    {d' : Prop} (hd : t.pc ≠ .lock → d → d') :
    (pr.follow s (.write line) t).Agrees next.task next.g.mem d' := by
  by_cases hret : t.pc = .ret
  · unfold Process.follow
    rw [if_pos hret]
    exact (h.finish hstage hret (hw.returns hret)).elsewhere (by rw [hw.returns hret]; exact Pc.noConfusion) _ _
  unfold Process.follow
  rw [if_neg hret]
  refine ⟨fun hout => absurd hstage (hout _),fun r hr' => ?_,fun r n hr' hn => ?_,
    fun hr' => (by cases hstage.symm.trans hr'),fun _ _ hr' => (by cases hstage.symm.trans hr'),
    fun line' hline hcopy => ?_,
    fun _ hr' => (by cases hstage.symm.trans hr'),fun _ hr' => (by cases hstage.symm.trans hr'),
    fun _ hr' => (by cases hstage.symm.trans hr'),h.printed⟩
  · cases hstage.symm.trans hr'
    exact hcall.trans (h.call _ hstage)
  · cases hstage.symm.trans hr'
    cases hn
    exact hw.transfers hret
  · cases hstage.symm.trans hline
    by_cases hlock : t.pc = .lock
    · rw [(hw.lock hlock).2]
      exact fun i hi => absurd hi (Nat.not_lt_zero i)
    by_cases hpc : t.pc = .copy
    · obtain ⟨hmem,hlength,-⟩ := hw.copy hpc
      rw [hmem,hlength]
      exact worn_store ((h.writes line hstage hpc).imp (hd hlock))
    · exact absurd hcopy (hw.other hlock hpc)

theorem follow_ioctl (s : Sys) {r : Request} (hsize : r.size = none) (hret : t.pc ≠ .ret) : pr.follow s r t = pr := by
  cases r with
  | write line => contradiction
  | read target => contradiction
  | _ => exact if_neg hret

/-- A statement of an ioctl by the process itself. -/
theorem Process.Agrees.ioctl {s : Sys} {r : Request} {next : Next} (h : pr.Agrees t mem d)
    (hstage : pr.stage = .inside r) (hsize : r.size = none) (hcall : next.task.call = t.call)
    (hreturns : t.pc = .ret → next.task.pc = .idle) (hregister : r = .regCurrentTask → next.task.pc ≠ .clear)
    (mem' : ℕ → UInt8) (d' : Prop) :
    (pr.follow s r t).Agrees next.task mem' d' := by
  have hwrite : ∀ line, pr.stage ≠ .inside (.write line) := by
    intro line hline
    cases hstage.symm.trans hline
    contradiction
  have hread : ∀ target, pr.stage ≠ .inside (.read target) := by
    intro target htarget
    cases hstage.symm.trans htarget
    contradiction
  by_cases hret : t.pc = .ret
  · unfold Process.follow
    rw [if_pos hret]
    exact (h.finish hstage hret (hreturns hret)).elsewhere (by rw [hreturns hret]; exact Pc.noConfusion) _ _
  · rw [follow_ioctl s hsize hret]
    refine ⟨fun hout => absurd hstage (hout _),fun r' hr' => ?_,fun r' n hr' hn => ?_,
      fun hr' => hregister (Stage.inside.inj (hstage.symm.trans hr')),h.seek,
      fun line hline => absurd hline (hwrite line),fun target htarget => absurd htarget (hread target),
      fun target htarget => absurd htarget (hread target),h.received,h.printed⟩
    · cases hstage.symm.trans hr'
      exact hcall.trans (h.call _ hstage)
    · cases hstage.symm.trans hr'
      rw [hsize] at hn
      contradiction

end Agrees

/-- The processes after a statement of one of them. -/
def Sys.after (s : Sys) (p : Pid) (r : Request) (next : Next) : Sys :=
  ({s with machine := s.machine.after p next}.follow p r (s.machine.task p) next.task.pc).set p
    ((s.process p).follow s r (s.machine.task p))

section Inv
variable {s s' : Sys} {p : Pid} {r : Request} {next : Next}

/-- A step is a choice in the menu, a step of the own code of a process, or a statement of its call. -/
theorem step_run (h : step s (.run p) = some s') : ∃ r next, (s.process p).stage = .inside r ∧
    statement p s.machine.g s.machine.mutex (s.machine.task p) .go = some next ∧ s' = s.after p r next := by
  simp only [step] at h
  split at h
  case h_1 r hstage =>
    obtain ⟨m,hm,rfl⟩ := Option.map_eq_some_iff.mp h
    obtain ⟨_,_,ha,-⟩ | ⟨_,_,next,ha,hst,rfl⟩ := Concurrent.step_cases hm
    · cases ha
    · cases ha
      refine ⟨r,next,hstage,hst,?_⟩
      unfold Sys.after
      rw [after_self]
  case h_2 => contradiction

@[simp] theorem follow_machine (s : Sys) (p : Pid) (r : Request) (t : Task) (pc : Pc) :
    (s.follow p r t pc).machine = s.machine := by
  cases r <;> rfl

@[simp] theorem follow_process (s : Sys) (p : Pid) (r : Request) (t : Task) (pc : Pc) :
    (s.follow p r t pc).process = s.process := by
  cases r <;> rfl

@[simp] theorem after_machine : (s.after p r next).machine = s.machine.after p next := by
  simp [Sys.after, Sys.set]

theorem after_process_self : (s.after p r next).process p = (s.process p).follow s r (s.machine.task p) :=
  Function.update_self _ _ _

theorem after_process_other {q : Pid} (hq : q ≠ p) : (s.after p r next).process q = s.process q := by
  simp [Sys.after, Sys.set, Function.update_of_ne hq]

/-- What the other processes know stays right, if the device is as it was, or has one zero more, or if none of
them copies. -/
theorem inv_after (h : Inv s) (hst : statement p s.machine.g s.machine.mutex (s.machine.task p) .go = some next)
    (hself : ((s.process p).follow s r (s.machine.task p)).Agrees next.task next.g.mem
      ((s.after p r next).disturbed = true))
    (hothers : (next.g.mem = s.machine.g.mem ∧ (s.after p r next).disturbed = s.disturbed) ∨
      (∃ j, next.g.mem = Function.update s.machine.g.mem j 0 ∧ (s.after p r next).disturbed = true) ∨
      ∀ q, q ≠ p → (s.machine.task q).pc ≠ .copy)
    (hheld : (∀ line, ((s.process p).follow s r (s.machine.task p)).stage = .inside (.write line) →
        next.task.pc ≠ .copy) →
      (∀ q, q ≠ p → ∀ line, (s.process q).stage = .inside (.write line) → (s.machine.task q).pc ≠ .copy) →
      Worn ((s.after p r next).disturbed = true) next.g.mem ((s.after p r next).held.chars.length+1)
        (s.after p r next).held.chars)
    (halone : ∀ q, (s.after p r next).alone q = true → ((s.machine.after p next).task q).call = .ioctl memClear →
      ((s.machine.after p next).task q).pc = .clear →
      ∀ i < ((s.machine.after p next).task q).cleared, next.g.mem i = 0) : Inv (s.after p r next) where
  sound := by rw [after_machine]; exact sound_after h.sound (statement_obeys hst)
  agrees q := by
    rw [after_machine]
    by_cases hq : q = p
    · subst hq
      rw [after_process_self,after_self]
      exact hself
    · rw [after_process_other hq,after_other hq]
      obtain ⟨hmem,hd⟩ | ⟨j,hmem,hd⟩ | hnone := hothers
      · rw [hd]
        exact hmem ▸ h.agrees q
      · rw [hd]
        have hzero := (h.agrees q).zero j
        rw [← hmem] at hzero
        change (s.process q).Agrees (s.machine.task q) next.g.mem (true = true)
        simpa using hzero
      · exact (h.agrees q).elsewhere (hnone q hq) _ _
  held hnone := by
    rw [after_machine] at hnone ⊢
    refine hheld (fun line hline => ?_) fun q hq line hline => ?_
    · have := hnone p line (by rw [after_process_self]; exact hline)
      rwa [after_self] at this
    · have := hnone q line (by rw [after_process_other hq]; exact hline)
      rwa [after_other hq] at this
  alone q hq hcall hpc := by
    rw [after_machine] at hcall hpc ⊢
    exact halone q hq hcall hpc

theorem free_of_lock (h : Inv s) (hst : statement p s.machine.g s.machine.mutex (s.machine.task p) .go = some next)
    (hlock : (s.machine.task p).pc = .lock) (q : Pid) : (s.machine.task q).pc ≠ .copy := by
  intro hcopy
  have hfree := (statement_obeys hst).free hlock
  have hholds := (h.sound.lock q).mpr (by rw [hcopy]; rfl)
  rw [hfree] at hholds
  contradiction

theorem inv_read {target : Target} (h : Inv s) (hstage : (s.process p).stage = .inside (.read target))
    (hst : statement p s.machine.g s.machine.mutex (s.machine.task p) .go = some next) :
    Inv (s.after p (.read target) next) := by
  have hp := h.agrees p
  have hcall := hp.call _ hstage
  have hcall' := (statement_obeys hst).call
  have hr : Reads s.machine.g.mem target.size (s.machine.task p) next := by
    refine read_reads ?_ (hp.transfers _ _ hstage rfl) (by rwa [statement,hcall] at hst)
    cases target <;> decide
  refine inv_after h hst ?_ (.inl ⟨hr.keeps,rfl⟩) (fun _ hothers => ?_) fun q hq hioctl hpc => ?_
  · rw [hr.keeps]
    refine hp.read hstage hr hcall' fun hlock => h.held fun q line _ => free_of_lock h hst hlock q
  · rw [hr.keeps]
    refine h.held fun q line hline => ?_
    by_cases hq : q = p
    · subst hq
      cases hstage.symm.trans hline
    · exact hothers q hq line hline
  · rw [hr.keeps]
    by_cases hqp : q = p
    · subst hqp
      rw [after_self,hcall',hcall] at hioctl
      contradiction
    · rw [after_other hqp] at hioctl hpc ⊢
      exact h.alone q hq hioctl hpc

theorem inv_write {line : Line} (h : Inv s) (hstage : (s.process p).stage = .inside (.write line))
    (hst : statement p s.machine.g s.machine.mutex (s.machine.task p) .go = some next) :
    Inv (s.after p (.write line) next) := by
  have hp := h.agrees p
  have hcall := hp.call _ hstage
  have hcall' := (statement_obeys hst).call
  have hw : Writes s.machine.g.mem line (s.machine.task p) next :=
    write_writes (hp.transfers _ _ hstage rfl) (by rwa [statement,hcall] at hst)
  have hdisturbed : (s.after p (.write line) next).disturbed =
      if (s.machine.task p).pc = .lock then false else s.disturbed := rfl
  have hheld : (s.after p (.write line) next).held =
      if (s.machine.task p).pc = .copy ∧ next.task.pc ≠ .copy then line else s.held := rfl
  have halone : (s.after p (.write line) next).alone =
      if (s.machine.task p).pc = .copy then fun _ => false else s.alone := rfl
  refine inv_after h hst (hp.write hstage hw hcall' fun hlock hd => by rwa [hdisturbed,if_neg hlock]) ?_
    (fun hself hothers => ?_) fun q hq hioctl hpc => ?_
  · by_cases hlock : (s.machine.task p).pc = .lock
    · exact .inr (.inr fun q _ => free_of_lock h hst hlock q)
    by_cases hcopy : (s.machine.task p).pc = .copy
    · refine .inr (.inr fun q hq hq' => ?_)
      have halone := alone_of_holds h.sound (p := p) (by rw [hcopy]; rfl) hq
      rw [hq'] at halone
      contradiction
    · exact .inl ⟨hw.quiet hcopy,by rw [hdisturbed,if_neg hlock]⟩
  · by_cases hcopy : (s.machine.task p).pc = .copy
    · have hret : (s.machine.task p).pc ≠ .ret := by rw [hcopy]; exact Pc.noConfusion
      have hout : next.task.pc ≠ .copy := hself line (by unfold Process.follow; rw [if_neg hret]; exact hstage)
      obtain ⟨hmem,hlength,hnext⟩ := hw.copy hcopy
      have hlock : (s.machine.task p).pc ≠ .lock := by rw [hcopy]; exact Pc.noConfusion
      rw [hheld,if_pos ⟨hcopy,hout⟩,hdisturbed,if_neg hlock,hmem,← (hnext.resolve_left hout).2,hlength]
      exact worn_store (hp.writes line hstage hcopy)
    · rw [hheld,if_neg fun hc => hcopy hc.1,hw.quiet hcopy,hdisturbed]
      by_cases hlock : (s.machine.task p).pc = .lock
      · have hstage' : ((s.process p).follow s (.write line) (s.machine.task p)).stage = .inside (.write line) := by
          unfold Process.follow
          rw [if_neg (by rw [hlock]; exact Pc.noConfusion)]
          exact hstage
        exact absurd (hw.lock hlock).1 (hself line hstage')
      · rw [if_neg hlock]
        refine h.held fun q line' hline => ?_
        by_cases hq : q = p
        · rwa [hq]
        · exact hothers q hq line' hline
  · rw [halone] at hq
    by_cases hcopy : (s.machine.task p).pc = .copy
    · rw [if_pos hcopy] at hq
      contradiction
    rw [if_neg hcopy] at hq
    rw [hw.quiet hcopy]
    by_cases hqp : q = p
    · subst hqp
      rw [after_self,hcall',hcall] at hioctl
      contradiction
    · rw [after_other hqp] at hioctl hpc ⊢
      exact h.alone q hq hioctl hpc

theorem inv_clear (h : Inv s) (hstage : (s.process p).stage = .inside .memClear)
    (hst : statement p s.machine.g s.machine.mutex (s.machine.task p) .go = some next) :
    Inv (s.after p .memClear next) := by
  have hp := h.agrees p
  have hcall := hp.call _ hstage
  have hcall' := (statement_obeys hst).call
  have hc : Clears s.machine.g.mem (s.machine.task p) next := clear_clears (by rwa [statement,hcall] at hst)
  have hself := hp.ioctl (s := s) hstage rfl hcall' hc.returns (fun hr => by cases hr) next.g.mem
    ((s.after p .memClear next).disturbed = true)
  have hdisturbed : (s.after p .memClear next).disturbed =
      if (s.machine.task p).pc = .clear then true else s.disturbed := rfl
  have hheld : (s.after p .memClear next).held =
      if (s.machine.task p).pc = .clear ∧ next.task.pc ≠ .clear ∧ s.alone p then .empty else s.held := rfl
  have halone : (s.after p .memClear next).alone =
      if (s.machine.task p).pc = .switch then Function.update s.alone p true else s.alone := rfl
  have hnone : (∀ q, q ≠ p → ∀ line, (s.process q).stage = .inside (.write line) → (s.machine.task q).pc ≠ .copy) →
      ∀ q line, (s.process q).stage = .inside (.write line) → (s.machine.task q).pc ≠ .copy := by
    intro hothers q line hline
    by_cases hq : q = p
    · subst hq
      cases hstage.symm.trans hline
    · exact hothers q hq line hline
  by_cases hclear : (s.machine.task p).pc = .clear
  · obtain ⟨hmem,hcleared,hnext⟩ := hc.clear hclear
    rw [if_pos hclear] at hdisturbed
    rw [if_neg (by rw [hclear]; exact Pc.noConfusion)] at halone
    refine inv_after h hst hself (.inr (.inl ⟨_,hmem,hdisturbed⟩)) (fun _ hothers => ?_) fun q hq hioctl hpc => ?_
    · rw [hheld,hdisturbed,hmem]
      split_ifs with hend
      · -- the clear has been alone, so that all it has stored is still there
        intro i hi
        obtain rfl : i = 0 := Nat.lt_one_iff.mp hi
        refine .inr ⟨?_,rfl⟩
        by_cases hzero : 0 = (s.machine.task p).cleared
        · rw [← hzero,Function.update_self]
        · rw [Function.update_of_ne hzero]
          exact h.alone p hend.2.2 hcall hclear 0 (Nat.pos_of_ne_zero (Ne.symm hzero))
      · simpa using (h.held (hnone hothers)).zero (s.machine.task p).cleared
    · rw [halone] at hq
      rw [hmem]
      by_cases hqp : q = p
      · subst hqp
        rw [after_self] at hioctl hpc ⊢
        intro i hi
        rw [hcleared] at hi
        obtain hlt | rfl := Nat.lt_succ_iff_lt_or_eq.mp hi
        · rw [Function.update_of_ne hlt.ne]
          exact h.alone q hq hcall hclear i hlt
        · exact Function.update_self _ _ _
      · rw [after_other hqp] at hioctl hpc ⊢
        intro i hi
        by_cases hi' : i = (s.machine.task p).cleared
        · rw [hi',Function.update_self]
        · rw [Function.update_of_ne hi']
          exact h.alone q hq hioctl hpc i hi
  · have hmem := hc.quiet hclear
    rw [if_neg hclear] at hdisturbed
    rw [if_neg fun hend => hclear hend.1] at hheld
    refine inv_after h hst hself (.inl ⟨hmem,hdisturbed⟩) (fun _ hothers => ?_) fun q hq hioctl hpc => ?_
    · rw [hheld,hdisturbed,hmem]
      exact h.held (hnone hothers)
    · rw [hmem]
      by_cases hqp : q = p
      · subst hqp
        rw [after_self] at hpc ⊢
        by_cases hswitch : (s.machine.task q).pc = .switch
        · have hframed := h.sound.framed q
          simp only [Task.framed, hswitch] at hframed
          rw [hc.switch hswitch,hframed.2]
          exact fun i hi => absurd hi (Nat.not_lt_zero i)
        · exact absurd hpc (hc.other hswitch hclear)
      · have hq' : s.alone q = true := by
          rw [halone] at hq
          split_ifs at hq
          · rwa [Function.update_of_ne hqp] at hq
          · exact hq
        rw [after_other hqp] at hioctl hpc ⊢
        exact h.alone q hq' hioctl hpc

theorem inv_register (h : Inv s) (hstage : (s.process p).stage = .inside .regCurrentTask)
    (hst : statement p s.machine.g s.machine.mutex (s.machine.task p) .go = some next) :
    Inv (s.after p .regCurrentTask next) := by
  have hp := h.agrees p
  have hcall := hp.call _ hstage
  have hcall' := (statement_obeys hst).call
  obtain ⟨hmem,hclear,hreturns⟩ := register_quiet (by rwa [statement,hcall] at hst) (hp.register hstage)
  refine inv_after h hst (hp.ioctl hstage rfl hcall' hreturns (fun _ => hclear) _ _) (.inl ⟨hmem,rfl⟩)
    (fun _ hothers => ?_) fun q hq hioctl hpc => ?_
  · rw [hmem]
    refine h.held fun q line hline => ?_
    by_cases hq : q = p
    · subst hq
      cases hstage.symm.trans hline
    · exact hothers q hq line hline
  · rw [hmem]
    by_cases hqp : q = p
    · subst hqp
      rw [after_self] at hpc
      exact absurd hpc hclear
    · rw [after_other hqp] at hioctl hpc ⊢
      exact h.alone q hq hioctl hpc

/-- A step of a process outside its system calls. -/
theorem inv_set (h : Inv s) (hout : ∀ r, (s.process p).stage ≠ .inside r) {pr : Process}
    (hpr : pr.Agrees (s.machine.task p) s.machine.g.mem (s.disturbed = true)) :
    Inv (s.set p pr) where
  sound := h.sound
  agrees q := by
    by_cases hq : q = p
    · subst hq
      simpa [Sys.set] using hpr
    · simpa [Sys.set, Function.update_of_ne hq] using h.agrees q
  held hnone := by
    refine h.held fun q line hline => ?_
    by_cases hq : q = p
    · subst hq
      exact absurd hline (hout _)
    · exact hnone q line (by simpa [Sys.set, Function.update_of_ne hq] using hline)
  alone := h.alone

/-- A process enters its system call. -/
theorem inv_enter (h : Inv s) (hstage : (s.process p).stage = .call r) {m : Machine}
    (hm : Concurrent.step s.machine (.call p (r.call (s.process p).fpos)) = some m) :
    Inv ({s with machine := m}.set p {s.process p with stage := .inside r}) := by
  have hp := h.agrees p
  obtain ⟨p',c,ha,hidle,rfl⟩ | ⟨_,_,_,ha,-⟩ := Concurrent.step_cases hm
  case inr => cases ha
  cases ha
  have hcall : r.call (s.process p).fpos = r.call 0 := by
    cases hsize : r.size with
    | some n => rw [hp.seek r n hstage hsize]
    | none => cases r <;> first | rfl | contradiction
  have hframe : ∀ q, q ≠ p →
      Function.update s.machine.task p (.ofCall (r.call (s.process p).fpos) s.machine.book.clock) q =
      s.machine.task q := fun q hq => Function.update_of_ne hq _ _
  have hfresh : ∀ c id, (Task.ofCall c id).pc ≠ .copy ∧ (Task.ofCall c id).pc ≠ .clear ∧
      past (Task.ofCall c id).pc = false := by
    intro c id
    cases c <;> exact ⟨Pc.noConfusion,Pc.noConfusion,rfl⟩
  obtain ⟨hcopy,hclear,hpast⟩ := hfresh (r.call (s.process p).fpos) s.machine.book.clock
  refine ⟨sound_call h.sound hidle _,fun q => ?_,fun hnone => ?_,fun q hq hioctl hpc => ?_⟩
  · by_cases hq : q = p
    · subst hq
      simp only [Sys.set, Function.update_self]
      refine ⟨fun hout => absurd rfl (hout r),fun r' hr' => ?_,fun r' n hr' hn => ?_,fun _ => hclear,
        fun _ _ hr' => (by cases hr'),fun _ _ hc => absurd hc hcopy,fun _ _ hc => absurd hc hcopy,
        fun _ _ hdone => ?_,fun _ hr' => (by cases hr'),hp.printed⟩
      · cases hr'
        rw [← hcall]
        cases r <;> rfl
      · cases hr'
        have hfpos := hp.seek r n hstage hn
        rw [hfpos]
        cases r with
        | write line => constructor <;> simp [Request.call, Task.ofCall, past]
        | read target => constructor <;> simp [Request.call, Task.ofCall, past]
        | _ => contradiction
      · rw [hpast] at hdone
        contradiction
    · simpa [Sys.set, hframe q hq, Function.update_of_ne hq] using h.agrees q
  · refine h.held fun q line hline => ?_
    by_cases hq : q = p
    · subst hq
      rw [hidle]
      exact Pc.noConfusion
    · have := hnone q line (by simpa [Sys.set, Function.update_of_ne hq] using hline)
      simpa [Sys.set, hframe q hq] using this
  · by_cases hqp : q = p
    · subst hqp
      simp only [Sys.set, Function.update_self] at hpc
      exact absurd hpc hclear
    · simp only [Sys.set, hframe q hqp] at hioctl hpc ⊢
      exact h.alone q hq hioctl hpc

theorem printed_sound {pr : Process} {target : Target}
    (h : Worn (pr.disturbed = true) pr.buf (min (pr.held.chars.length+1) target.size) pr.held.chars) :
    Printed.Sound ⟨cString pr.buf target.size 0,target,pr.held,pr.disturbed⟩ where
  text u hu := by
    obtain ⟨hpre,hall⟩ := cString_of_worn h pr.held.nonzero hu
    exact ⟨hpre,fun hd => hall (Bool.eq_false_iff.mp hd)⟩
  overrun hnone := length_of_worn h hnone

theorem inv_step {a : Act} (h : step s a = some s') (hs : Inv s) : Inv s' := by
  cases a with
  | choose p r =>
    simp only [step] at h
    split at h
    case h_2 => contradiction
    case h_1 hstage =>
      cases h
      have hout : ∀ r', (s.process p).stage ≠ .inside r' := fun r' hr' => by cases hstage.symm.trans hr'
      have hfirst : r.first = .lseek r ∨ r.size = none ∧ r.first = .call r := by
        cases r <;> simp [Request.first, Request.size]
      refine inv_set hs hout ((hs.agrees p).outside hout ?_ ?_ ?_ (hs.agrees p).printed)
      · intro r' hr'
        obtain hf | ⟨-,hf⟩ := hfirst <;> cases hf.symm.trans hr'
      · intro r' n hr' hn
        obtain hf | ⟨hnone,hf⟩ := hfirst <;> cases hf.symm.trans hr'
        rw [hnone] at hn
        contradiction
      · intro target hr'
        obtain hf | ⟨-,hf⟩ := hfirst <;> cases hf.symm.trans hr'
  | go p =>
    simp only [step] at h
    split at h
    case h_4 => contradiction
    case h_1 r hstage =>
      cases h
      have hout : ∀ r', (s.process p).stage ≠ .inside r' := fun r' hr' => by cases hstage.symm.trans hr'
      refine inv_set hs hout ((hs.agrees p).outside hout (fun r' hr' => by cases hr')
        (fun _ _ _ _ => ?_) (fun target hr' => by cases hr') (hs.agrees p).printed)
      rfl
    case h_2 r hstage =>
      obtain ⟨m,hm,rfl⟩ := Option.map_eq_some_iff.mp h
      exact inv_enter hs hstage hm
    case h_3 target hstage =>
      cases h
      have hout : ∀ r', (s.process p).stage ≠ .inside r' := fun r' hr' => by cases hstage.symm.trans hr'
      refine inv_set hs hout ((hs.agrees p).outside hout (fun r' hr' => by cases hr')
        (fun _ _ hr' _ => by cases hr') (fun target hr' => by cases hr') ?_)
      intro e he
      obtain he | he := List.mem_append.mp he
      · exact (hs.agrees p).printed e he
      · rw [List.mem_singleton.mp he]
        exact printed_sound ((hs.agrees p).received target hstage)
  | run p =>
    obtain ⟨r,next,hstage,hst,rfl⟩ := step_run h
    cases r with
    | write line => exact inv_write hs hstage hst
    | read target => exact inv_read hs hstage hst
    | memClear => exact inv_clear hs hstage hst
    | regCurrentTask => exact inv_register hs hstage hst

theorem inv_opened : Inv opened where
  sound := sound_load
  agrees p := by
    constructor <;> simp [opened, Concurrent.load]
  held _ := fun i _ => .inl (by simp [opened, Concurrent.load, Line.empty])
  alone p hp := by cases hp

/-- What the processes print when the lines typed in have at most 1023 characters (`Line`; `scanf` has no width,
and a longer one runs off `write_buf`), in whatever order their calls, copies and clears are interleaved: a prefix
of the text that the device held when the read took the mutex, and all of it if no byte was cleared meanwhile.
Then no `printf` runs off `read_buf`, and one runs off `kernel_val` only behind a text of 20 characters or more. -/
theorem prints_held_text {acts : List Act} (h : run step opened acts = some s) {e : Printed}
    (he : e ∈ (s.process p).printed) :
    (∀ u, e.text = some u → u <+: e.held.chars ∧ (e.disturbed = false → u = e.held.chars)) ∧
    (e.text = none → e.target = .kernelVal ∧ 20 ≤ e.held.chars.length) := by
  have hs : Inv s := run_invariant (fun _ _ _ => inv_step) h inv_opened
  have hsound := (hs.agrees p).printed e he
  refine ⟨hsound.text,fun hnone => ?_⟩
  have hlong := hsound.overrun hnone
  cases htarget : e.target with
  | readBuf =>
    rw [htarget] at hlong
    exact absurd e.held.fits (not_lt.mpr hlong)
  | kernelVal =>
    rw [htarget] at hlong
    exact ⟨rfl,hlong⟩

end Inv

def hi : Line := ⟨[72,105],by decide,by simp⟩

/-- Process 1 writes a line while process 2, in a poll loop, is between its `lseek` and its read. -/
def greeted : List Act :=
  [Act.choose 2 (.read .kernelVal),.go 2,.choose 1 (.write hi),.go 1,.go 1,.go 2] ++
    List.replicate 3 (Act.run 1) ++ [Act.run 2] ++ List.replicate 5 (Act.run 1) ++
    List.replicate 27 (Act.run 2) ++ [Act.go 2]

theorem prints_held_text_greeted : ∃ s e, run step opened greeted = some s ∧ e ∈ (s.process 2).printed ∧
    e.text = some [72,105] ∧ [72,105] <+: e.held.chars := by
  obtain ⟨s,hs,hp⟩ := exists_of_run_any step opened greeted
    (fun s => (s.process 2).printed.map Printed.text = [some [72,105]]) (by decide +kernel)
  simp only [decide_eq_true_eq] at hp
  obtain ⟨e,he,htext⟩ := List.mem_map.mp (hp ▸ List.mem_singleton_self _)
  exact ⟨s,e,hs,he,htext,((prints_held_text hs he).1 _ htext).1⟩

end ExampleKernel.GlobalMem.Concurrent.App
