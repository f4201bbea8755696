import ExampleKernel.GlobalFifo.Refinement

/-! SIGIO: which files are on the asynchronous notification list, and which of them a call signals.
Only `fasync` and `release` depend on the file that a call is made through. -/
namespace ExampleKernel.GlobalFifo
open ExampleKernel.Foundation ExampleKernel.Kernel

/-- Number of bytes that an effect appends to the queue. -/
def Effect.appends : Effect → ℕ
  | .setLen _ (.put bytes) => bytes.length
  | _ => 0

/-- `kill_fasync` signals every file of the list. -/
def Effect.signals (queue : List FileId) : Effect → List FileId
  | .killFasync => queue
  | _ => []

/-- The call has its result, or there is none. -/
def Pc.over : Pc → Bool
  | .out | .removeWait | .setRunning | .ret | .idle => true
  | _ => false

/-- The writer has appended its bytes and has still to notify. -/
def Task.owes (t : Task) : Bool :=
  match t.call, t.pc with
  | .write _ _ _, .wake | .write _ _ _, .sigio => true
  | _, _ => false

theorem apply_asyncQueue (p : Pid) (s : Sys) (e : Effect) :
    (e.apply p s).dev.asyncQueue = s.dev.asyncQueue := by
  cases e <;> rfl

/-- `fasync_helper` has the file once on the list, or not at all, and leaves the others. -/
theorem count_fasyncHelper {file : FileId} {mode : Bool} {queue : List FileId} (h : queue.count file ≤ 1)
    (f : FileId) : (fasyncHelper file mode queue).count f = if f = file then mode.toNat else queue.count f := by
  unfold fasyncHelper
  split_ifs with hmode hmem hf hf hf
  · subst hf
    have hpos := List.count_pos_iff.mpr hmem
    simp only [hmode, Bool.toNat_true]
    omega
  · rfl
  · subst hf
    simp [hmode, List.count_eq_zero_of_not_mem hmem]
  · exact List.count_cons_of_ne (Ne.symm hf)
  · subst hf
    rw [List.count_erase_self]
    simp only [hmode, Bool.toNat_false]
    omega
  · exact List.count_erase_of_ne hf

/-- What a statement does about the bytes appended and the files signalled: it appends the bytes of a
write, or is the notification of a write, or does neither. -/
inductive Notifies (queue : List FileId) (t t' : Task) (e : Effect) : Prop
  | append (hpc : t.pc ≠ .sigio) (hover : t.pc.over = false) (howes : t.owes = false) (howes' : t'.owes = true)
      (hover' : t'.pc.over = false) (hcount : t'.count = t.count) (happends : e.appends = t.count.toNat)
      (hsignals : e.signals queue = [])
  | notify (hpc : t.pc = .sigio) (howes : t.owes = true) (howes' : t'.owes = false) (hover' : t'.pc.over = true)
      (happends : e.appends = 0) (hsignals : e.signals queue = queue)
  | keep (hpc : t.pc ≠ .sigio) (hover : t.pc.over = true → t'.pc.over = true) (howes' : t'.owes = t.owes)
      (hsame : t.owes = true → t'.count = t.count ∧ t'.pc.over = false) (happends : e.appends = 0)
      (hsignals : e.signals queue = [])

theorem statement_notifies {dev : GlobalfifoDev} {t t' : Task} {c : Choice} {e : Effect}
    (h : statement dev t c = some (t',e)) : Notifies dev.asyncQueue t t' e := by
  obtain ⟨_,_,hcall,h⟩ | ⟨_,_,_,hcall,h⟩ | ⟨_,hcall,h⟩ | ⟨_,hcall,h⟩ := statement_move h
  case inr.inl =>
    cases h <;> rename_i hpc
    case account => apply Notifies.append <;> simp [Task.owes, Pc.over, hcall, hpc, Effect.appends, Effect.signals]
    case unwatched hnone =>
      apply Notifies.notify <;> simp [Task.owes, Pc.over, hcall, hpc, Effect.appends, Effect.signals, hnone]
    case sigio => apply Notifies.notify <;> simp [Task.owes, Pc.over, hcall, hpc, Effect.appends, Effect.signals]
    all_goals apply Notifies.keep <;> simp [Task.owes, Pc.over, hcall, hpc, Effect.appends, Effect.signals]
  all_goals
    cases h <;> rename_i hpc <;> apply Notifies.keep <;>
      simp [Task.owes, Pc.over, hcall, hpc, Effect.appends, Effect.signals]

namespace Notify

/-- The open files beside the system; `on` is the mode of the last `fasync` call since the file was
opened. The other fields are history. Of the latest call of a task: how many bytes it appended, which
files it signalled, and which were subscribed when it came to its notification. Of the whole run:
whether a signal was sent while the queue was empty. -/
structure Watched where
  sys : Sys
  opened : FileId → Bool
  on : FileId → Bool
  appended : Pid → ℕ
  signalled : Pid → List FileId
  audience : Pid → Option (FileId → Bool)
  hollow : Bool

inductive Op
  | openFile (f : FileId)
  | act (a : Act)

/-- The file is open and its last `fasync` call switched notification on. -/
def Watched.subscribed (w : Watched) (f : FileId) : Bool := w.opened f && w.on f

/-- The effect of the next statement of a task. -/
def effect (s : Sys) (p : Pid) (c : Choice) : Effect :=
  ((statement s.dev (s.task p) c).map Prod.snd).getD .none

def Watched.note (w : Watched) (p : Pid) (e : Effect) : Watched :=
  let queue := w.sys.dev.asyncQueue
  {w with
    appended := Function.update w.appended p (w.appended p+e.appends)
    signalled := Function.update w.signalled p (w.signalled p ++ e.signals queue)
    audience :=
      if (w.sys.task p).pc = .sigio then Function.update w.audience p (some w.subscribed) else w.audience
    hollow := w.hollow || (e.signals queue ≠ [] && w.sys.dev.currentLen = 0)}

def Watched.record (w : Watched) : Act → Watched
  | .call p _ => {w with
      appended := Function.update w.appended p 0
      signalled := Function.update w.signalled p []
      audience := Function.update w.audience p none}
  | .run p c => w.note p (effect w.sys p c)
  | .fasync f mode => {w with on := Function.update w.on f mode}
  | .release f => {w with opened := Function.update w.opened f false}
  | _ => w

/-- `fasync` and `release` are called on open files. -/
def Watched.allows (w : Watched) : Act → Bool
  | .fasync f _ => w.opened f
  | .release f => w.opened f
  | _ => true

def step (w : Watched) : Op → Option Watched
  | .openFile f =>
    if w.opened f then none
    else some {w with opened := Function.update w.opened f true, on := Function.update w.on f false}
  | .act a =>
    if w.allows a then (GlobalFifo.step w.sys a).map fun s => {w.record a with sys := s} else none

/-- The loaded module, and no file of it open. -/
def load : Watched where
  sys := GlobalFifo.load
  opened := fun _ => false
  on := fun _ => false
  appended := fun _ => 0
  signalled := fun _ => []
  audience := fun _ => none
  hollow := false

/-- A call that is over has signalled every file that was subscribed, once, if it appended a byte,
and none otherwise. -/
def Told (t : Task) (appended : ℕ) (signalled : List FileId) (audience : Option (FileId → Bool)) : Prop :=
  t.pc.over = true →
    (1 ≤ appended → ∃ subscribed, audience = some subscribed ∧ ∀ f, signalled.count f = (subscribed f).toNat) ∧
    (appended = 0 → signalled = [])

/-- The list consists of the subscribed files, each once, the calls that are over have notified as they
should, and no signal was sent about an empty queue. -/
structure Notified (w : Watched) : Prop where
  list : ∀ f, w.sys.dev.asyncQueue.count f = (w.subscribed f).toNat
  told : ∀ p, Told (w.sys.task p) (w.appended p) (w.signalled p) (w.audience p)
  filled : w.hollow = false

/-- A write that comes to its notification was asked for at least one byte, or nobody listens. -/
def Requested (w : Watched) : Op → Prop
  | .act (.run p _) =>
    match (w.sys.task p).call, (w.sys.task p).pc with
    | .write _ n _, .sigio => n ≠ 0 ∨ w.sys.dev.asyncQueue = []
    | _, _ => True
  | _ => True

/-- Before its notification a writer has appended its count, and nobody has been signalled. -/
def Recorded (t : Task) (appended : ℕ) (signalled : List FileId) : Prop :=
  (t.owes = true → appended = t.count.toNat ∧ signalled = []) ∧
    (t.owes = false → t.pc.over = false → appended = 0 ∧ signalled = [])

structure Inv (w : Watched) : Prop where
  sys : GlobalFifo.Inv w.sys
  list : ∀ f, w.sys.dev.asyncQueue.count f = (w.subscribed f).toNat
  recorded : ∀ p, Recorded (w.sys.task p) (w.appended p) (w.signalled p)

theorem inv_load : Inv load := ⟨GlobalFifo.inv_load,fun _ => rfl,fun _ => ⟨nofun,nofun⟩⟩

theorem notified_load : Notified load := ⟨fun _ => rfl,fun _ _ => ⟨nofun,fun _ => rfl⟩,rfl⟩

section Frames
variable {t t' : Task} {appended : ℕ} {signalled : List FileId} {audience : Option (FileId → Bool)}

theorem nudge_owes (h : Nudge t t') : t'.owes = t.owes := by
  simp only [Task.owes, h.call, h.pc]

theorem nudge_recorded (h : Nudge t t') : Recorded t' appended signalled ↔ Recorded t appended signalled := by
  simp only [Recorded, nudge_owes h, h.pc, h.count]

theorem nudge_told (h : Nudge t t') : Told t' appended signalled audience ↔ Told t appended signalled audience := by
  simp only [Told, h.pc]

end Frames

/-- Everything a step can be: a file is opened, or the system takes a step that is recorded. -/
theorem step_cases {w w' : Watched} {op : Op} (h : step w op = some w') :
    (∃ f, op = .openFile f ∧ w.opened f = false ∧
      w' = {w with opened := Function.update w.opened f true, on := Function.update w.on f false}) ∨
    (∃ a s, op = .act a ∧ w.allows a = true ∧ GlobalFifo.step w.sys a = some s ∧ w' = {w.record a with sys := s}) := by
  cases op with
  | openFile f =>
    simp only [step, Option.ite_none_left_eq_some, Option.some.injEq] at h
    exact .inl ⟨f,rfl,by simpa using h.1,h.2.symm⟩
  | act a =>
    simp only [step, Option.ite_none_right_eq_some, Option.map_eq_some_iff] at h
    obtain ⟨hallows,s,hs,rfl⟩ := h
    exact .inr ⟨a,s,rfl,hallows,hs,rfl⟩

theorem effect_eq {s : Sys} {p : Pid} {c : Choice} {t : Task} {e : Effect}
    (h : statement s.dev (s.task p) c = some (t,e)) : effect s p c = e := by
  simp [effect, h]

/-- The list of the subscribed files is kept by every step. -/
theorem list_step {w w' : Watched} {op : Op} (h : step w op = some w')
    (hs : ∀ f, w.sys.dev.asyncQueue.count f = (w.subscribed f).toNat) (f : FileId) :
    w'.sys.dev.asyncQueue.count f = (w'.subscribed f).toNat := by
  have hle : ∀ g, w.sys.dev.asyncQueue.count g ≤ 1 := fun g => (hs g).trans_le (Bool.toNat_le _)
  obtain ⟨g,-,hclosed,rfl⟩ | ⟨a,s,-,hallows,hst,rfl⟩ := step_cases h
  · rw [hs f]
    by_cases hf : f = g
    · subst hf; simp [Watched.subscribed, hclosed]
    · simp [Watched.subscribed, Function.update_of_ne hf]
  · cases a with
    | fasync g mode =>
      cases hst
      have hopen : w.opened g = true := hallows
      change (fasyncHelper g mode w.sys.dev.asyncQueue).count f = _
      rw [count_fasyncHelper (hle g)]
      split_ifs with hf
      · subst hf; simp [Watched.subscribed, Watched.record, hopen]
      · rw [hs f]; simp [Watched.subscribed, Watched.record, Function.update_of_ne hf]
    | release g =>
      cases hst
      change (fasyncHelper g false w.sys.dev.asyncQueue).count f = _
      rw [count_fasyncHelper (hle g)]
      split_ifs with hf
      · subst hf; simp [Watched.subscribed, Watched.record]
      · rw [hs f]; simp [Watched.subscribed, Watched.record, Function.update_of_ne hf]
    | run p c =>
      obtain ⟨⟨t,e⟩,-,rfl⟩ := Option.map_eq_some_iff.mp hst
      change (e.apply p (w.sys.setTask p t)).dev.asyncQueue.count f = _
      rw [apply_asyncQueue]
      exact hs f
    | call p c | handleSignal p | timeout p =>
      simp only [GlobalFifo.step, Option.ite_none_right_eq_some, Option.some.injEq] at hst
      obtain ⟨-,rfl⟩ := hst
      exact hs f
    | signal p | setOwner g p => cases hst; exact hs f

section Statements
variable {queue : List FileId} {t t' : Task} {e : Effect} {appended : ℕ} {signalled : List FileId}
  {audience : Option (FileId → Bool)}

theorem recorded_statement (h : Notifies queue t t' e) (hs : Recorded t appended signalled) :
    Recorded t' (appended+e.appends) (signalled ++ e.signals queue) := by
  cases h with
  | append hpc hover howes howes' hover' hcount happends hsignals =>
    obtain ⟨rfl,rfl⟩ := hs.2 howes hover
    rw [happends,hsignals,Nat.zero_add]
    exact ⟨fun _ => ⟨by rw [hcount],rfl⟩,fun hno => by rw [howes'] at hno; contradiction⟩
  | notify hpc howes howes' hover' happends hsignals =>
    exact ⟨fun hyes => by rw [howes'] at hyes; contradiction,fun _ hno => by rw [hover'] at hno; contradiction⟩
  | keep hpc hover howes' hsame happends hsignals =>
    rw [happends,hsignals,Nat.add_zero,List.append_nil]
    refine ⟨fun howes => ?_,fun howes hno => ?_⟩
    · rw [howes'] at howes
      rw [(hsame howes).1]
      exact hs.1 howes
    · rw [howes'] at howes
      refine hs.2 howes ?_
      rw [← Bool.not_eq_true] at hno ⊢
      exact fun h => hno (hover h)

/-- A statement other than the notification leaves nothing to tell. -/
theorem told_statement (h : Notifies queue t t' e) (hpc : t.pc ≠ .sigio) (hr : Recorded t appended signalled)
    (hs : Told t appended signalled audience) :
    Told t' (appended+e.appends) (signalled ++ e.signals queue) audience := by
  intro hover''
  cases h with
  | append _ _ _ _ hover' => rw [hover'] at hover''; contradiction
  | notify hpc' => exact (hpc hpc').elim
  | keep _ hover howes' hsame happends hsignals =>
    rw [happends,hsignals,Nat.add_zero,List.append_nil]
    cases hbefore : t.pc.over with
    | true => exact hs hbefore
    | false =>
      cases howes : t.owes with
      | true => rw [(hsame howes).2] at hover''; contradiction
      | false =>
        obtain ⟨rfl,rfl⟩ := hr.2 howes hbefore
        exact ⟨nofun,fun _ => rfl⟩

/-- The notification tells whom it should unless nothing was appended and somebody listens. -/
theorem told_notify {subscribed : FileId → Bool} (hover : t'.pc.over = true)
    (hlist : ∀ f, queue.count f = (subscribed f).toNat) :
    Told t' appended queue (some subscribed) ↔ (appended = 0 → queue = []) :=
  ⟨fun h => (h hover).2,fun h _ => ⟨fun _ => ⟨subscribed,rfl,hlist⟩,h⟩⟩

end Statements

/-- The step leaves the histories of all calls alone, and owes no notification. -/
structure Unheard (w w' : Watched) (op : Op) : Prop where
  sys : Quiet w.sys w'.sys
  appended : w'.appended = w.appended
  signalled : w'.signalled = w.signalled
  audience : w'.audience = w.audience
  hollow : w'.hollow = w.hollow
  requested : Requested w op

/-- What a step means for the calls: one begins, one executes a statement, or none is concerned. -/
theorem calls_cases {w w' : Watched} {op : Op} (h : step w op = some w') :
    (∃ p c, op = .act (.call p c) ∧
      w' = {w.record (.call p c) with sys := w.sys.setTask p ((w.sys.task p).enter c)}) ∨
    (∃ p c t e, op = .act (.run p c) ∧ statement w.sys.dev (w.sys.task p) c = some (t,e) ∧
      w' = {w.note p e with sys := e.apply p (w.sys.setTask p t)}) ∨ Unheard w w' op := by
  obtain ⟨g,rfl,-,rfl⟩ | ⟨a,s,rfl,-,hst,rfl⟩ := step_cases h
  · exact .inr (.inr ⟨⟨rfl,rfl,rfl,rfl,rfl,rfl,fun _ => .refl⟩,rfl,rfl,rfl,rfl,trivial⟩)
  · obtain ⟨p,c,rfl,-,rfl⟩ | ⟨p,c,t,e,rfl,hst',rfl⟩ | hq := GlobalFifo.step_cases hst
    · exact .inl ⟨p,c,rfl,rfl⟩
    · refine .inr (.inl ⟨p,c,t,e,rfl,hst',?_⟩)
      rw [Watched.record,effect_eq hst']
    · cases a with
      | call p c =>
        simp only [GlobalFifo.step, Option.ite_none_right_eq_some, Option.some.injEq] at hst
        exact .inl ⟨p,c,rfl,by rw [hst.2]⟩
      | run p c =>
        obtain ⟨⟨t,e⟩,hst',rfl⟩ := Option.map_eq_some_iff.mp hst
        refine .inr (.inl ⟨p,c,t,e,rfl,hst',?_⟩)
        rw [Watched.record,effect_eq hst']
      | _ => exact .inr (.inr ⟨hq,rfl,rfl,rfl,rfl,trivial⟩)

theorem enter_fresh (t : Task) (c : Call) : (t.enter c).owes = false ∧ (t.enter c).pc.over = false := by
  cases c <;> exact ⟨rfl,rfl⟩

theorem recorded_step {w w' : Watched} {op : Op} (h : step w op = some w')
    (hs : ∀ p, Recorded (w.sys.task p) (w.appended p) (w.signalled p)) (r : Pid) :
    Recorded (w'.sys.task r) (w'.appended r) (w'.signalled r) := by
  obtain ⟨p,c,-,rfl⟩ | ⟨p,c,t,e,-,hst,rfl⟩ | hq := calls_cases h
  · simp only [Watched.record]
    by_cases hr : r = p
    · subst hr
      obtain ⟨howes,-⟩ := enter_fresh (w.sys.task r) c
      rw [setTask_self,Function.update_self,Function.update_self]
      exact ⟨fun hyes => by rw [howes] at hyes; contradiction,fun _ _ => ⟨rfl,rfl⟩⟩
    · rw [setTask_other _ _ hr,Function.update_of_ne hr,Function.update_of_ne hr]
      exact hs r
  · simp only [Watched.note]
    by_cases hr : r = p
    · subst hr
      rw [Function.update_self,Function.update_self,nudge_recorded (apply_setTask_self r w.sys t e)]
      exact recorded_statement (statement_notifies hst) (hs r)
    · rw [Function.update_of_ne hr,Function.update_of_ne hr,nudge_recorded (apply_setTask_other hr w.sys t e)]
      exact hs r
  · rw [hq.appended,hq.signalled,nudge_recorded (hq.sys.task r)]
    exact hs r

theorem sysInv_step {w w' : Watched} {op : Op} (h : step w op = some w') (hs : GlobalFifo.Inv w.sys) :
    GlobalFifo.Inv w'.sys := by
  obtain ⟨g,-,-,rfl⟩ | ⟨a,s,-,-,hst,rfl⟩ := step_cases h
  · exact hs
  · exact GlobalFifo.inv_step hst hs

theorem inv_step {w w' : Watched} {op : Op} (h : step w op = some w') (hs : Inv w) : Inv w' :=
  ⟨sysInv_step h hs.sys,list_step h hs.list,recorded_step h hs.recorded⟩

/-- At its notification a writer has appended what was asked for, up to the room that it found. -/
theorem sigio_count {w : Watched} (hs : Inv w) {p : Pid} {nonblock : Bool} {n : UInt64} {buf : ℕ → UInt8}
    (hcall : (w.sys.task p).call = .write nonblock n buf) (hpc : (w.sys.task p).pc = .sigio) :
    (w.appended p = 0 ↔ n = 0) ∧ (w.appended p ≤ w.sys.dev.currentLen.toNat) ∧ w.signalled p = [] := by
  have hframed := hs.sys.data.framed p
  have hlen := hs.sys.undisturbed p
  obtain ⟨happended,hsignalled⟩ := (hs.recorded p).1 (by simp [Task.owes, hcall, hpc])
  simp only [Task.framed, hcall, Task.progress, hpc] at hframed
  simp only [Task.undisturbed, hcall, hpc] at hlen
  have hzero : n = 0 ↔ n.toNat = 0 := by rw [← UInt64.toNat_inj]; rfl
  rw [happended,hzero]
  exact ⟨by omega,by omega,hsignalled⟩

section Notes
variable {w : Watched} {p : Pid} {t : Task} {e : Effect}

/-- Whom a statement of another task would have to tell does not change. -/
theorem told_other (hs : Notified w) {r : Pid} (hr : r ≠ p) :
    Told ((e.apply p (w.sys.setTask p t)).task r) ((w.note p e).appended r) ((w.note p e).signalled r)
      ((w.note p e).audience r) := by
  rw [nudge_told (apply_setTask_other hr w.sys t e)]
  simp only [Watched.note, Function.update_of_ne hr]
  have haudience : (if (w.sys.task p).pc = .sigio then Function.update w.audience p (some w.subscribed)
      else w.audience) r = w.audience r := by
    split_ifs <;> [exact Function.update_of_ne hr _ _; rfl]
  rw [haudience]
  exact hs.told r

theorem notified_elsewhere (hI : Inv w) (hs : Notified w)
    (h : Notifies w.sys.dev.asyncQueue (w.sys.task p) t e) (hpc : (w.sys.task p).pc ≠ .sigio) :
    Notified {w.note p e with sys := e.apply p (w.sys.setTask p t)} := by
  have hsilent : e.signals w.sys.dev.asyncQueue = [] := by
    cases h <;> first | assumption | contradiction
  refine ⟨fun f => ?_,fun r => ?_,?_⟩
  · change (e.apply p (w.sys.setTask p t)).dev.asyncQueue.count f = _
    rw [apply_asyncQueue]
    exact hs.list f
  · by_cases hr : r = p
    · subst hr
      rw [nudge_told (apply_setTask_self r w.sys t e)]
      simp only [Watched.note, Function.update_self, if_neg hpc]
      exact told_statement h hpc (hI.recorded r) (hs.told r)
    · exact told_other hs hr
  · simp only [Watched.note, hsilent, ne_eq, not_true, decide_false, Bool.false_and, Bool.or_false]
    exact hs.filled

theorem notified_sigio {nonblock : Bool} {n : UInt64} {buf : ℕ → UInt8} (hI : Inv w) (hs : Notified w)
    (h : Notifies w.sys.dev.asyncQueue (w.sys.task p) t e)
    (hcall : (w.sys.task p).call = .write nonblock n buf) (hpc : (w.sys.task p).pc = .sigio) :
    Notified {w.note p e with sys := e.apply p (w.sys.setTask p t)} ↔ n ≠ 0 ∨ w.sys.dev.asyncQueue = [] := by
  obtain ⟨hzero,hle,hsignalled⟩ := sigio_count hI hcall hpc
  cases h with
  | append hpc' => exact (hpc' hpc).elim
  | keep hpc' => exact (hpc' hpc).elim
  | notify _ _ _ hover happends hsignals =>
    have htold : Told ((e.apply p (w.sys.setTask p t)).task p) ((w.note p e).appended p)
        ((w.note p e).signalled p) ((w.note p e).audience p) ↔ n ≠ 0 ∨ w.sys.dev.asyncQueue = [] := by
      rw [nudge_told (apply_setTask_self p w.sys t e)]
      simp only [Watched.note, Function.update_self, if_pos hpc, happends, hsignals, hsignalled, Nat.add_zero,
        List.nil_append]
      rw [told_notify hover hs.list,hzero,imp_iff_not_or]
    refine ⟨fun hn => htold.mp (hn.told p),fun hn => ⟨fun f => ?_,fun r => ?_,?_⟩⟩
    · change (e.apply p (w.sys.setTask p t)).dev.asyncQueue.count f = _
      rw [apply_asyncQueue]
      exact hs.list f
    · by_cases hr : r = p
      · subst hr; exact htold.mpr hn
      · exact told_other hs hr
    · simp only [Watched.note, hsignals, hs.filled, Bool.false_or, Bool.and_eq_false_iff, decide_eq_false_iff_not]
      obtain hn | hempty := hn
      · -- a byte that was appended is still there, since the writer has the mutex
        refine .inr fun hlen => hn (hzero.mp ?_)
        rw [hlen] at hle
        exact Nat.le_zero.mp hle
      · exact .inl (not_not.mpr hempty)

end Notes

/-- A step keeps the notifications right exactly if it is not the notification of an empty write. -/
theorem notified_step {w w' : Watched} {op : Op} (h : step w op = some w') (hI : Inv w) (hs : Notified w) :
    Notified w' ↔ Requested w op := by
  have hlist := list_step h hs.list
  obtain ⟨p,c,rfl,rfl⟩ | ⟨p,c,t,e,rfl,hst,rfl⟩ | hq := calls_cases h
  · refine iff_of_true ⟨hlist,fun r => ?_,hs.filled⟩ trivial
    simp only [Watched.record]
    by_cases hr : r = p
    · subst hr
      obtain ⟨-,hover⟩ := enter_fresh (w.sys.task r) c
      rw [setTask_self,Function.update_self,Function.update_self,Function.update_self]
      exact fun hyes => by rw [hover] at hyes; contradiction
    · rw [setTask_other _ _ hr,Function.update_of_ne hr,Function.update_of_ne hr,Function.update_of_ne hr]
      exact hs.told r
  · have hn := statement_notifies hst
    by_cases hpc : (w.sys.task p).pc = .sigio
    · cases hcall : (w.sys.task p).call with
      | write nonblock n buf =>
        simp only [Requested, hcall, hpc]
        exact notified_sigio hI hs hn hcall hpc
      | _ => simp [statement, hcall, hpc, globalfifoRead, globalfifoIoctl, doPoll, globalfifoPoll] at hst
    · refine iff_of_true (notified_elsewhere hI hs hn hpc) ?_
      simp only [Requested]
      split <;> trivial
  · refine iff_of_true ⟨hlist,fun r => ?_,by rw [hq.hollow]; exact hs.filled⟩ hq.requested
    rw [hq.appended,hq.signalled,hq.audience,nudge_told (hq.sys.task r)]
    exact hs.told r

/-- In every run through any number of files, the notifications are right in every state exactly when no
write of zero bytes comes to its notification while the list is not empty. -/
theorem notified_iff {ops : List Op} {w : Watched} (h : run step load ops = some w) :
    Always step Notified load ops ↔ Meets step Requested load ops :=
  always_iff_meets (fun _ _ _ => inv_step) (fun _ _ _ => notified_step) h inv_load notified_load

def requested (w : Watched) : Op → Bool
  | .act (.run p _) =>
    match (w.sys.task p).call, (w.sys.task p).pc with
    | .write _ n _, .sigio => n ≠ 0 || w.sys.dev.asyncQueue = []
    | _, _ => true
  | _ => true

theorem requested_sound (w : Watched) (op : Op) (h : requested w op = true) : Requested w op := by
  unfold requested at h
  unfold Requested
  split <;> (try trivial)
  split <;> simp_all

/-- Two files are open and one of them is subscribed, when a write of two bytes returns. -/
theorem notified_iff_two_files : ∃ ops w, run step load ops = some w ∧ Always step Notified load ops ∧
    (w.sys.task 1).pc = .ret ∧ w.appended 1 = 2 ∧ w.signalled 1 = [5] := by
  let ops : List Op := [.openFile 5,.openFile 6,.act (.fasync 6 true),.act (.fasync 5 true),
    .act (.fasync 6 false),.act (.call 1 (.write false 2 fun _ => 7))] ++ List.replicate 11 (.act (.run 1 .done))
  obtain ⟨w,hw,hp⟩ := exists_of_run_any step load ops
    (fun w => (w.sys.task 1).pc = .ret ∧ w.appended 1 = 2 ∧ w.signalled 1 = [5]) (by decide)
  have hC : Meets step Requested load ops := meets_of_check requested requested_sound (by decide)
  exact ⟨ops,w,hw,(notified_iff hw).mpr hC,of_decide_eq_true hp⟩

/-- A write of zero bytes into the empty queue signals the subscribed file. -/
theorem empty_write_signals : ∃ ops w, run step load ops = some w ∧ (w.sys.task 1).pc.over = true ∧
    w.appended 1 = 0 ∧ w.signalled 1 = [5] ∧ w.sys.dev.currentLen = 0 ∧ w.hollow = true ∧ ¬ Notified w := by
  obtain ⟨w,hw,hp⟩ := exists_of_run_any step load
    ([.openFile 5,.act (.fasync 5 true),.act (.call 1 (.write false 0 fun _ => 7))] ++
      List.replicate 8 (.act (.run 1 .done)))
    (fun w => (w.sys.task 1).pc.over = true ∧ w.appended 1 = 0 ∧ w.signalled 1 = [5] ∧
      w.sys.dev.currentLen = 0 ∧ w.hollow = true) (by decide)
  obtain ⟨hover,happended,hsignalled,hlen,hhollow⟩ := of_decide_eq_true hp
  refine ⟨_,w,hw,hover,happended,hsignalled,hlen,hhollow,fun hn => ?_⟩
  have hfilled := hn.filled
  rw [hhollow] at hfilled
  contradiction

end Notify

end ExampleKernel.GlobalFifo
