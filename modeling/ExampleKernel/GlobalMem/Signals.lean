import ExampleKernel.Foundation.Transition
import ExampleKernel.GlobalMem.Device

/-! The task that globalmem signals from its interrupt handler, over every history of opens,
forks, threads, registrations, closes and exits. -/
namespace ExampleKernel.GlobalMem.Signals
open ExampleKernel.Foundation ExampleKernel.Kernel ExampleKernel.GlobalMem

/-- Tasks with their descriptor tables, which threads share and forks copy. Tasks, tables and open
files are numbered in the order of their creation. `registered` is a history variable, the open
file of the last registration, and `sent` lists the tasks that were sent a signal. -/
structure Sys where
  g : Globalmem
  alive : Pid → Bool
  table : Pid → ℕ
  fds : ℕ → List FileId
  nextPid : ℕ
  nextTable : ℕ
  nextFile : ℕ
  registered : Option FileId
  sent : List Pid

/-- Some descriptor of the open file is left. -/
def Sys.held (s : Sys) (f : FileId) : Bool := (List.range s.nextTable).any fun t => f ∈ s.fds t

/-- Another living task uses the descriptor table of `p`. -/
def Sys.shared (s : Sys) (p : Pid) : Bool :=
  (List.range s.nextPid).any fun q => q ≠ p && s.alive q && s.table q = s.table p

/-- Take one descriptor of the file out of a table. -/
def Sys.erase (s : Sys) (t : ℕ) (f : FileId) : Sys :=
  {s with fds := Function.update s.fds t ((s.fds t).erase f)}

/-- The task drops a descriptor; with the last one it runs `globalmem_release`. -/
def Sys.drop (s : Sys) (p : Pid) (f : FileId) : Sys :=
  let s' := s.erase (s.table p) f
  if s'.held f then s' else {s' with g := globalmemRelease s'.g p}

def Sys.dropAll (s : Sys) (p : Pid) : List FileId → Sys
  | [] => s
  | f::fs => (s.drop p f).dropAll p fs

/-- `irq_handler` as far as the signal goes. -/
def irqHandler (s : Sys) : Sys :=
  match s.g.sigTask with
  | some p => {s with sent := s.sent ++ [p]}
  | none => s

inductive Act
  | open (p : Pid)
  | dup (p : Pid) (f : FileId)
  | close (p : Pid) (f : FileId)
  | register (p : Pid) (f : FileId)
  | fork (p : Pid)
  | thread (p : Pid)
  | exit (p : Pid)
  | irq

/-- An exiting task drops its descriptors, unless a thread still uses the table, and is dead then. -/
def exit (s : Sys) (p : Pid) : Sys :=
  let s' := if s.shared p then s else s.dropAll p (s.fds (s.table p))
  {s' with alive := Function.update s'.alive p false}

def step (s : Sys) : Act → Option Sys
  | .open p => if s.alive p then some {s with
      fds := Function.update s.fds (s.table p) (s.nextFile :: s.fds (s.table p))
      nextFile := s.nextFile+1} else none
  | .dup p f => if s.alive p ∧ f ∈ s.fds (s.table p) then some {s with
      fds := Function.update s.fds (s.table p) (f :: s.fds (s.table p))} else none
  | .close p f => if s.alive p ∧ f ∈ s.fds (s.table p) then some (s.drop p f) else none
  | .register p f => if s.alive p ∧ f ∈ s.fds (s.table p) then some {s with
      g := (globalmemIoctl s.g regCurrentTask p).1
      registered := some f} else none
  | .fork p => if s.alive p then some {s with
      alive := Function.update s.alive s.nextPid true
      table := Function.update s.table s.nextPid s.nextTable
      fds := Function.update s.fds s.nextTable (s.fds (s.table p))
      nextPid := s.nextPid+1
      nextTable := s.nextTable+1} else none
  | .thread p => if s.alive p then some {s with
      alive := Function.update s.alive s.nextPid true
      table := Function.update s.table s.nextPid (s.table p)
      nextPid := s.nextPid+1} else none
  | .exit p => if s.alive p then some (exit s p) else none
  | .irq => some (irqHandler s)

/-- One task with an empty table, the module loaded. -/
def boot : Sys where
  g := ⟨fun _ => 0,none,0,0,0⟩
  alive := fun p => p = 0
  table := fun _ => 0
  fds := fun _ => []
  nextPid := 1
  nextTable := 1
  nextFile := 0
  registered := none
  sent := []

/-- The handler would signal nobody, or a living task whose registering file is not released. -/
def Safe (s : Sys) : Prop :=
  ∀ p, s.g.sigTask = some p → s.alive p = true ∧ ∃ f, s.registered = some f ∧ s.held f = true

/-- The exit of the task drops the last descriptor of the file. -/
def Sys.releases (s : Sys) (p : Pid) (f : FileId) : Prop :=
  s.shared p = false ∧ f ∈ s.fds (s.table p) ∧
    ∀ t, t < s.nextTable → t ≠ s.table p → f ∉ s.fds t

/-- The last descriptor of the registering file is dropped by the registered task itself, and the
registered task does not exit without dropping the last descriptor of some file. -/
def DropsOwn (s : Sys) : Act → Prop
  | .close p f => s.registered = some f → (s.erase (s.table p) f).held f = false →
      ∀ q, s.g.sigTask = some q → q = p
  | .exit p => ∀ q, s.g.sigTask = some q →
      if q = p then ∃ f, s.releases p f else ∀ f, s.registered = some f → ¬ s.releases p f
  | _ => True

theorem held_iff {s : Sys} {f : FileId} : s.held f = true ↔ ∃ t, t < s.nextTable ∧ f ∈ s.fds t := by
  simp [Sys.held]

section Drop
variable (s : Sys) (p : Pid) (f : FileId)

@[simp] theorem drop_alive : (s.drop p f).alive = s.alive := by
  unfold Sys.drop; dsimp only; split_ifs <;> rfl

@[simp] theorem drop_table : (s.drop p f).table = s.table := by
  unfold Sys.drop; dsimp only; split_ifs <;> rfl

@[simp] theorem drop_nextTable : (s.drop p f).nextTable = s.nextTable := by
  unfold Sys.drop; dsimp only; split_ifs <;> rfl

@[simp] theorem drop_registered : (s.drop p f).registered = s.registered := by
  unfold Sys.drop; dsimp only; split_ifs <;> rfl

theorem drop_fds : (s.drop p f).fds = (s.erase (s.table p) f).fds := by
  unfold Sys.drop; dsimp only; split_ifs <;> rfl

/-- Only the last drop, by the registered task, clears the registration. -/
theorem drop_sigTask (q : Pid) : (s.drop p f).g.sigTask = some q ↔
    s.g.sigTask = some q ∧ ¬ (q = p ∧ (s.erase (s.table p) f).held f = false) := by
  have herase : (s.erase (s.table p) f).g = s.g := rfl
  unfold Sys.drop globalmemRelease
  dsimp only
  rw [herase]
  split_ifs with hheld hp
  · simp [hheld, herase]
  · refine iff_of_false nofun ?_
    rintro ⟨hq,hn⟩
    rw [hq,Option.some.injEq] at hp
    exact hn ⟨hp.symm,by simpa using hheld⟩
  · refine (and_iff_left_of_imp fun hq hqp => hp ?_).symm
    rw [← hqp.1,hq]

end Drop

/-- What dropping all descriptors of a table leaves. -/
structure Dropped (s s' : Sys) (p : Pid) (fs : List FileId) : Prop where
  alive : s'.alive = s.alive
  table : s'.table = s.table
  nextTable : s'.nextTable = s.nextTable
  registered : s'.registered = s.registered
  fds : s'.fds = Function.update s.fds (s.table p) []
  sigTask : ∀ q, s'.g.sigTask = some q ↔ s.g.sigTask = some q ∧
    ¬ (q = p ∧ ∃ f ∈ fs, ∀ t, t < s.nextTable → t ≠ s.table p → f ∉ s.fds t)

theorem dropAll_dropped {p : Pid} {fs : List FileId} {s : Sys} (hfs : s.fds (s.table p) = fs)
    (hp : s.table p < s.nextTable) : Dropped s (s.dropAll p fs) p fs := by
  induction fs generalizing s with
  | nil =>
    refine ⟨rfl,rfl,rfl,rfl,?_,by simp [Sys.dropAll]⟩
    conv_rhs => rw [← hfs]
    exact (Function.update_eq_self _ _).symm
  | cons f fs ih =>
    have hnext : (s.drop p f).fds ((s.drop p f).table p) = fs := by
      rw [drop_fds,drop_table]
      simp [Sys.erase, hfs]
    have hother : ∀ t, t ≠ s.table p → (s.drop p f).fds t = s.fds t := by
      intro t ht
      rw [drop_fds]
      exact Function.update_of_ne ht _ _
    -- a file with a descriptor left in this table is released by a later drop, if at all
    have hlast : (s.erase (s.table p) f).held f = false ↔
        f ∉ fs ∧ ∀ t, t < s.nextTable → t ≠ s.table p → f ∉ s.fds t := by
      rw [← Bool.not_eq_true,held_iff]
      constructor
      · intro h
        refine ⟨fun hmem => h ⟨s.table p,hp,by simpa [Sys.erase, hfs] using hmem⟩,fun t ht htp hmem => ?_⟩
        exact h ⟨t,ht,by simpa [Sys.erase, Function.update_of_ne htp] using hmem⟩
      · rintro ⟨hfs',hothers⟩ ⟨t,ht,hmem⟩
        by_cases htp : t = s.table p
        · subst htp; exact hfs' (by simpa [Sys.erase, hfs] using hmem)
        · exact hothers t ht htp (by simpa [Sys.erase, Function.update_of_ne htp] using hmem)
    obtain ⟨halive,htable,hnt,hreg,hfds,hsig⟩ := ih hnext (by simpa using hp)
    simp only [drop_alive, drop_table, drop_nextTable, drop_registered] at halive htable hnt hreg hfds hsig
    refine ⟨halive,htable,hnt,hreg,?_,?_⟩
    · rw [Sys.dropAll,hfds,drop_fds]
      exact Function.update_idem _ _ _
    · intro q
      have hrest : (∃ g ∈ fs, ∀ t, t < s.nextTable → t ≠ s.table p → g ∉ (s.drop p f).fds t) ↔
          ∃ g ∈ fs, ∀ t, t < s.nextTable → t ≠ s.table p → g ∉ s.fds t := by
        refine exists_congr fun g => and_congr_right fun _ => forall_congr' fun t =>
          imp_congr_right fun _ => forall_congr' fun htp => ?_
        rw [hother t htp]
      rw [Sys.dropAll,hsig,hrest,drop_sigTask,hlast,and_assoc,← not_or,← and_or_left]
      refine and_congr_right fun _ => not_congr (and_congr_right fun _ => ?_)
      simp only [List.mem_cons, exists_eq_or_imp]
      constructor
      · exact Or.imp_left And.right
      · rintro (hothers | hrest)
        · by_cases hmem : f ∈ fs
          · exact .inr ⟨f,hmem,hothers⟩
          · exact .inl ⟨hmem,hothers⟩
        · exact .inr hrest

/-- Living tasks have a descriptor table that counts. -/
def Wf (s : Sys) : Prop := ∀ p, s.alive p = true → s.table p < s.nextTable

theorem exit_dropped {s : Sys} {p : Pid} (hwf : Wf s) (hp : s.alive p = true) (hs : s.shared p = false) :
    ∃ s', exit s p = {s' with alive := Function.update s'.alive p false} ∧
      Dropped s s' p (s.fds (s.table p)) :=
  ⟨_,by simp [exit, hs],dropAll_dropped rfl (hwf p hp)⟩

theorem wf_step {s t : Sys} {a : Act} (h : step s a = some t) (hs : Wf s) : Wf t := by
  intro q hq
  cases a with
  | «open» p | dup p f | register p f =>
    simp only [step, Option.ite_none_right_eq_some, Option.some.injEq] at h
    obtain ⟨-,rfl⟩ := h
    exact hs q hq
  | close p f =>
    simp only [step, Option.ite_none_right_eq_some, Option.some.injEq] at h
    obtain ⟨-,rfl⟩ := h
    simpa using hs q (by simpa using hq)
  | fork p =>
    simp only [step, Option.ite_none_right_eq_some, Option.some.injEq] at h
    obtain ⟨-,rfl⟩ := h
    by_cases hnew : q = s.nextPid
    · subst hnew; simp
    · simp only [Function.update_of_ne hnew] at hq ⊢
      exact (hs q hq).trans (Nat.lt_succ_self _)
  | thread p =>
    simp only [step, Option.ite_none_right_eq_some, Option.some.injEq] at h
    obtain ⟨hp,rfl⟩ := h
    by_cases hnew : q = s.nextPid
    · subst hnew; simpa using hs p hp
    · simp only [Function.update_of_ne hnew] at hq ⊢
      exact hs q hq
  | exit p =>
    simp only [step, Option.ite_none_right_eq_some, Option.some.injEq] at h
    obtain ⟨hp,rfl⟩ := h
    have hqp : q ≠ p := by rintro rfl; simp [exit] at hq
    cases hshared : s.shared p with
    | true =>
      simp only [exit, hshared, if_true, Function.update_of_ne hqp] at hq ⊢
      exact hs q hq
    | false =>
      obtain ⟨s',heq,hd⟩ := exit_dropped hs hp hshared
      rw [heq] at hq ⊢
      simp only [Function.update_of_ne hqp, hd.alive] at hq
      simpa only [hd.table, hd.nextTable] using hs q hq
  | irq =>
    cases h
    unfold irqHandler at *
    split at hq <;> exact hs q hq

/-- Steps that only add tasks and descriptors keep the handler safe. -/
theorem safe_mono {s t : Sys} (hsig : t.g.sigTask = s.g.sigTask) (hreg : t.registered = s.registered)
    (halive : ∀ q, s.alive q = true → t.alive q = true) (hheld : ∀ f, s.held f = true → t.held f = true)
    (hs : Safe s) : Safe t := by
  intro q hq
  obtain ⟨hqa,f,hf,hfh⟩ := hs q (hsig ▸ hq)
  exact ⟨halive q hqa,f,hreg.trans hf,hheld f hfh⟩

theorem held_mono {s t : Sys} (hn : s.nextTable ≤ t.nextTable)
    (hsub : ∀ u, u < s.nextTable → s.fds u ⊆ t.fds u) {f : FileId} (h : s.held f = true) :
    t.held f = true := by
  obtain ⟨u,hu,hf⟩ := held_iff.mp h
  exact held_iff.mpr ⟨u,hu.trans_le hn,hsub u hu hf⟩

theorem subset_update_cons (fds : ℕ → List FileId) (t : ℕ) (f : FileId) (u : ℕ) :
    fds u ⊆ Function.update fds t (f :: fds t) u := by
  by_cases hu : u = t
  · subst hu; simp
  · simp [Function.update_of_ne hu]

theorem drop_held (s : Sys) (p : Pid) (f g : FileId) :
    (s.drop p f).held g = (s.erase (s.table p) f).held g := by
  simp only [Sys.held, drop_fds, drop_nextTable]
  rfl

theorem erase_held_of_ne (s : Sys) (t : ℕ) {f g : FileId} (h : g ≠ f) :
    (s.erase t f).held g = s.held g := by
  rw [Bool.eq_iff_iff,held_iff,held_iff]
  refine exists_congr fun u => and_congr_right fun _ => ?_
  by_cases hut : u = t
  · subst hut; simp [Sys.erase, List.mem_erase_of_ne h]
  · simp [Sys.erase, Function.update_of_ne hut]

theorem safe_close {s : Sys} (hs : Safe s) (p : Pid) (f : FileId) :
    Safe (s.drop p f) ↔ DropsOwn s (.close p f) := by
  constructor
  · intro ht hreg hlast q hq
    by_contra hqp
    obtain ⟨-,g,hg,hheld⟩ := ht q ((drop_sigTask s p f q).mpr ⟨hq,fun h => hqp h.1⟩)
    rw [drop_registered,hreg,Option.some.injEq] at hg
    rw [drop_held,← hg,hlast] at hheld
    contradiction
  · intro hc q hq
    obtain ⟨hqs,hkept⟩ := (drop_sigTask s p f q).mp hq
    obtain ⟨halive,g,hg,hheld⟩ := hs q hqs
    refine ⟨by rwa [drop_alive],g,by rwa [drop_registered],?_⟩
    rw [drop_held]
    by_cases hgf : g = f
    · subst hgf
      by_contra hlast
      have hlast : (s.erase (s.table p) g).held g = false := by simpa using hlast
      exact hkept ⟨hc hg hlast q hqs,hlast⟩
    · rwa [erase_held_of_ne s _ hgf]

theorem safe_exit {s : Sys} (hwf : Wf s) (hs : Safe s) {p : Pid} (hp : s.alive p = true) :
    Safe (exit s p) ↔ DropsOwn s (.exit p) := by
  cases hshared : s.shared p with
  | true =>
    have hno : ∀ f, ¬ s.releases p f := fun f hf => by rw [hf.1] at hshared; contradiction
    have hexit : exit s p = {s with alive := Function.update s.alive p false} := by simp [exit, hshared]
    rw [hexit]
    constructor
    · intro ht q hq
      split_ifs with hqp
      · have halive := (ht q hq).1
        simp [hqp] at halive
      · exact fun f _ => hno f
    · intro hc q hq
      obtain ⟨halive,hreg⟩ := hs q hq
      have hqp : q ≠ p := by
        intro hqp
        have hcq := hc q hq
        rw [if_pos hqp] at hcq
        obtain ⟨f,hf⟩ := hcq
        exact hno f hf
      exact ⟨by rw [← halive]; exact Function.update_of_ne hqp _ _,hreg⟩
  | false =>
    obtain ⟨s',hexit,hd⟩ := exit_dropped hwf hp hshared
    have hreleases : (∃ f, s.releases p f) ↔
        ∃ f ∈ s.fds (s.table p), ∀ t, t < s.nextTable → t ≠ s.table p → f ∉ s.fds t :=
      exists_congr fun f => ⟨fun h => h.2,fun h => ⟨hshared,h⟩⟩
    have hheld : ∀ f, s'.held f = true ↔ ∃ t, t < s.nextTable ∧ t ≠ s.table p ∧ f ∈ s.fds t := by
      intro f
      rw [held_iff,hd.nextTable,hd.fds]
      refine exists_congr fun t => and_congr_right fun _ => ?_
      by_cases ht : t = s.table p
      · subst ht; simp
      · simp [ht]
    rw [hexit]
    constructor
    · intro ht q hq
      split_ifs with hqp
      · by_contra hnone
        have hq' := (hd.sigTask q).mpr ⟨hq,fun h => hnone (hreleases.mpr h.2)⟩
        have halive := (ht q hq').1
        simp [hqp] at halive
      · intro f hf hrel
        obtain ⟨-,g,hg,hgh⟩ := ht q ((hd.sigTask q).mpr ⟨hq,fun h => hqp h.1⟩)
        have hgf : f = g := Option.some.inj (hf.symm.trans (hd.registered.symm.trans hg))
        subst hgf
        obtain ⟨u,hu,hup,hmem⟩ := (hheld f).mp hgh
        exact hrel.2.2 u hu hup hmem
    · intro hc q hq
      obtain ⟨hq,hkept⟩ := (hd.sigTask q).mp hq
      obtain ⟨halive,g,hg,hgh⟩ := hs q hq
      have hcq := hc q hq
      have hqp : q ≠ p := by
        intro hqp
        rw [if_pos hqp] at hcq
        exact hkept ⟨hqp,hreleases.mp hcq⟩
      rw [if_neg hqp] at hcq
      refine ⟨?_,g,hd.registered.trans hg,(hheld g).mpr ?_⟩
      · simp only [Function.update_of_ne hqp, hd.alive]
        exact halive
      · by_contra hnone
        obtain ⟨u,hu,hmem⟩ := held_iff.mp hgh
        have hown : u = s.table p := by_contra fun hup => hnone ⟨u,hu,hup,hmem⟩
        exact hcq g hg ⟨hshared,hown ▸ hmem,fun t ht htp hm => hnone ⟨t,ht,htp,hm⟩⟩

/-- A step keeps the handler safe exactly when it drops no registration of another task. -/
theorem safe_step {s t : Sys} {a : Act} (h : step s a = some t) (hwf : Wf s) (hs : Safe s) :
    Safe t ↔ DropsOwn s a := by
  cases a with
  | «open» p =>
    simp only [step, Option.ite_none_right_eq_some, Option.some.injEq] at h
    obtain ⟨-,rfl⟩ := h
    refine iff_of_true (safe_mono (s := s) rfl rfl (fun _ => id) (fun _ => held_mono ?_ ?_) hs) trivial
    · exact le_rfl
    · exact fun u _ => subset_update_cons _ _ _ u
  | dup p f =>
    simp only [step, Option.ite_none_right_eq_some, Option.some.injEq] at h
    obtain ⟨-,rfl⟩ := h
    refine iff_of_true (safe_mono (s := s) rfl rfl (fun _ => id) (fun _ => held_mono ?_ ?_) hs) trivial
    · exact le_rfl
    · exact fun u _ => subset_update_cons _ _ _ u
  | close p f =>
    simp only [step, Option.ite_none_right_eq_some, Option.some.injEq] at h
    obtain ⟨-,rfl⟩ := h
    exact safe_close hs p f
  | register p f =>
    simp only [step, Option.ite_none_right_eq_some, Option.some.injEq] at h
    obtain ⟨⟨hp,hf⟩,rfl⟩ := h
    refine iff_of_true (fun q hq => ?_) trivial
    have hqp : p = q := Option.some.inj hq
    exact ⟨hqp ▸ hp,f,rfl,held_iff.mpr ⟨s.table p,hwf p hp,hf⟩⟩
  | fork p =>
    simp only [step, Option.ite_none_right_eq_some, Option.some.injEq] at h
    obtain ⟨-,rfl⟩ := h
    refine iff_of_true (safe_mono (s := s) rfl rfl (fun q hq => ?_)
      (fun _ => held_mono (Nat.le_succ _) fun u hu => ?_) hs) trivial
    · by_cases hnew : q = s.nextPid <;> simp [hnew, hq]
    · simp [Function.update_of_ne hu.ne]
  | thread p =>
    simp only [step, Option.ite_none_right_eq_some, Option.some.injEq] at h
    obtain ⟨-,rfl⟩ := h
    refine iff_of_true (safe_mono (s := s) rfl rfl (fun q hq => ?_) (fun _ => id) hs) trivial
    by_cases hnew : q = s.nextPid <;> simp [hnew, hq]
  | exit p =>
    simp only [step, Option.ite_none_right_eq_some, Option.some.injEq] at h
    obtain ⟨hp,rfl⟩ := h
    exact safe_exit hwf hs hp
  | irq =>
    cases h
    refine iff_of_true ?_ trivial
    unfold irqHandler
    split <;> exact hs

/-- The handler, which can run in every state, never has a dead task or a released file before it,
exactly in the runs whose drops and exits all meet the condition. -/
theorem signal_safe_iff {acts : List Act} {s : Sys} (h : run step boot acts = some s) :
    Always step Safe boot acts ↔ Meets step DropsOwn boot acts :=
  always_iff_meets (fun _ _ _ => wf_step) (fun _ _ _ => safe_step) h (by simp [Wf, boot])
    (by simp [Safe, boot])

/-- The condition, evaluated for runs in which the registered task closes the file itself. -/
def closesOwn (s : Sys) : Act → Bool
  | .close p f => s.g.sigTask = some p || s.g.sigTask = none || (s.erase (s.table p) f).held f
  | .exit _ => s.g.sigTask = none
  | _ => true

theorem dropsOwn_of_closesOwn (s : Sys) (a : Act) (h : closesOwn s a = true) : DropsOwn s a := by
  cases a with
  | close p f =>
    simp only [closesOwn, Bool.or_eq_true, decide_eq_true_eq] at h
    rintro - hlast q hq
    obtain (hp | hnone) | hheld := h
    · exact Option.some.inj (hq.symm.trans hp)
    · rw [hnone] at hq; contradiction
    · rw [hlast] at hheld; contradiction
  | exit p =>
    intro q hq
    rw [show s.g.sigTask = none by simpa [closesOwn] using h] at hq
    contradiction
  | _ => trivial

/-- A child drops the shared file first, and the registered parent last. -/
theorem signal_safe_iff_parent_last : ∃ acts s, run step boot acts = some s ∧ s.sent = [0] ∧
    s.g.sigTask = none ∧ Always step Safe boot acts := by
  obtain ⟨s,hs,hp⟩ := exists_of_run_any step boot
    [.open 0,.register 0 0,.fork 0,.irq,.close 1 0,.close 0 0,.exit 0,.irq]
    (fun s => s.sent = [0] ∧ s.g.sigTask = none) (by decide)
  simp only [decide_eq_true_eq] at hp
  have hC := meets_of_check closesOwn dropsOwn_of_closesOwn (by decide : check step closesOwn boot
    [.open 0,.register 0 0,.fork 0,.irq,.close 1 0,.close 0 0,.exit 0,.irq] = true)
  exact ⟨_,s,hs,hp.1,hp.2,(signal_safe_iff hs).mpr hC⟩

/-- The registered task exits while its child still has the file: the handler signals a dead task. -/
theorem handler_signals_dead : ¬ ∀ acts s, run step boot acts = some s → Safe s := by
  intro h
  obtain ⟨s,hs,hp⟩ := exists_of_run_any step boot [.open 0,.register 0 0,.fork 0,.exit 0]
    (fun s => s.g.sigTask = some 0 ∧ s.alive 0 = false) (by decide)
  simp only [decide_eq_true_eq] at hp
  have halive := (h _ s hs 0 hp.1).1
  rw [hp.2] at halive
  contradiction

end ExampleKernel.GlobalMem.Signals
