import ExampleKernel.Foundation.Transition
import ExampleKernel.Kernel.Basic
import ExampleKernel.Kernel.Timer

/-! The seconds driver: one timer and one counter, which every open sets up and every release
stops, for any number of open files. -/
namespace ExampleKernel.Second
open ExampleKernel.Foundation ExampleKernel.Kernel

/-- An open file, from the start of `second_open` on; the program points are named after the next
statement. `vals` lists what `second_read` has delivered through the file. -/
inductive File
  | timerSetup
  | modTimer
  | atomicSet
  | opened (vals : List ℤ)
  | closed
  deriving DecidableEq

def File.isOpened : File → Bool
  | .opened _ => true
  | _ => false

/-- `counted` tells whether the running handler has incremented the counter; `setupPending` is
history: `timer_setup` was applied to a pending timer. -/
structure State where
  timer : Timer
  counted : Bool
  counter : ℤ
  files : List File
  setupPending : Bool

/-- The value that `atomic_inc` leaves in an `atomic_t`. -/
def atomicInc (counter : ℤ) : ℤ := (counter+1).bmod (2^32)

/-- `fire` to `finish` are the steps of `second_timer_handler`; `read` may fault in `put_user`. -/
inductive Act
  | start
  | open (i : ℕ)
  | read (i : ℕ) (fault : Bool)
  | release (i : ℕ)
  | fire
  | modTimer
  | atomicInc
  | finish

/-- `timer_setup` makes a timer look as if it were not pending. -/
def timerSetup (t : Timer) : Timer := {t with pending := false}

def secondOpen (s : State) (i : ℕ) : Option State :=
  match s.files[i]? with
  | some .timerSetup => some {s with
      timer := timerSetup s.timer
      files := s.files.set i .modTimer
      setupPending := s.setupPending || s.timer.pending}
  | some .modTimer => some {s with timer := s.timer.modTimer, files := s.files.set i .atomicSet}
  | some .atomicSet => some {s with counter := 0, files := s.files.set i (.opened [])}
  | _ => none

def secondRead (s : State) (i : ℕ) (fault : Bool) : Option State :=
  match s.files[i]? with
  | some (.opened vals) =>
    if fault then some s else some {s with files := s.files.set i (.opened (vals ++ [s.counter]))}
  | _ => none

def secondRelease (s : State) (i : ℕ) : Option State :=
  match s.files[i]? with
  | some (.opened _) => some {s with timer := s.timer.delTimer, files := s.files.set i .closed}
  | _ => none

def step (s : State) : Act → Option State
  | .start => some {s with files := s.files ++ [.timerSetup]}
  | .open i => secondOpen s i
  | .read i fault => secondRead s i fault
  | .release i => secondRelease s i
  | .fire => s.timer.fire.map fun t => {s with timer := t, counted := false}
  | .modTimer => s.timer.rearm.map fun t => {s with timer := t}
  | .atomicInc =>
    if s.timer.handler = .rearmed ∧ s.counted = false then
      some {s with counter := atomicInc s.counter, counted := true}
    else none
  | .finish => if s.counted = true then s.timer.finish.map fun t => {s with timer := t} else none

/-- After `second_init`. -/
def loaded : State where
  timer := Timer.stopped
  counted := false
  counter := 0
  files := []
  setupPending := false

/-- While a file is open the timer is pending or in its handler, it was never set up while pending,
and what each open file has read is in order. -/
structure Serves (s : State) : Prop where
  ticking : ∀ vals, .opened vals ∈ s.files → ¬ s.timer.Dead
  setup : s.setupPending = false
  ordered : ∀ vals, .opened vals ∈ s.files → vals.Pairwise (· ≤ ·)

/-- A file is opened only when no other is in use and nothing will start the timer, and the counter
stays within `int` while a file is open. -/
def Alone (s : State) : Act → Prop
  | .start => (∀ f ∈ s.files, f = .closed) ∧ ¬ s.timer.Armed
  | .atomicInc => s.files.any File.isOpened = true → s.counter < 2^31-1
  | _ => True

instance (s : State) : DecidablePred (Alone s)
  | .start => inferInstanceAs (Decidable ((∀ f ∈ s.files, f = .closed) ∧ ¬ s.timer.Armed))
  | .atomicInc => inferInstanceAs (Decidable (s.files.any File.isOpened = true → s.counter < 2^31-1))
  | .open _ | .read _ _ | .release _ | .fire | .modTimer | .finish => inferInstanceAs (Decidable True)

/-- What holds while the file `f` is the one in use. -/
def File.Served (f : File) (s : State) : Prop :=
  match f with
  | .timerSetup | .modTimer => ¬ s.timer.Armed
  | .atomicSet => s.timer.Armed
  | .opened vals => s.timer.Armed ∧ vals.Pairwise (· ≤ ·) ∧ ∀ v ∈ vals, v ≤ s.counter
  | .closed => True

/-- At most the last file is in use. -/
structure Inv (s : State) : Prop where
  files : s.files = [] ∨ ∃ n f, s.files = List.replicate n .closed ++ [f] ∧ f.Served s
  setup : s.setupPending = false
  counter : -2^31 ≤ s.counter

theorem inv_loaded : Inv loaded := ⟨.inl rfl,rfl,by decide⟩

theorem atomicInc_ge (counter : ℤ) : -2^31 ≤ atomicInc counter := by
  have h := Int.le_bmod (x := counter+1) (m := 2^32) (by decide)
  unfold atomicInc
  omega

/-- An entry in use is the last one. -/
theorem in_use_last {n i : ℕ} {f g : File} (h : (List.replicate n File.closed ++ [f])[i]? = some g)
    (hg : g ≠ .closed) : i = n ∧ g = f := by
  obtain hlt | rfl | hgt := lt_trichotomy i n
  · rw [List.getElem?_append_left (by simpa using hlt),List.getElem?_replicate_of_lt hlt] at h
    exact absurd (Option.some.inj h).symm hg
  · simpa [eq_comm] using h
  · rw [List.getElem?_eq_none (by simp; omega)] at h
    contradiction

theorem mem_set_of_getElem? {fs : List File} {i : ℕ} {f : File} (h : fs[i]? = some f) (g : File) :
    g ∈ fs.set i g := by
  obtain ⟨hi,-⟩ := List.getElem?_eq_some_iff.mp h
  exact List.mem_set hi g

theorem set_last (n : ℕ) (f g : File) :
    (List.replicate n File.closed ++ [f]).set n g = List.replicate n .closed ++ [g] := by
  rw [List.set_append_right _ _ (by simp)]
  simp

/-- A step of the file in use. -/
theorem Inv.file {s t : State} {i : ℕ} {f g : File} (hs : Inv s) (hi : s.files[i]? = some f)
    (hf : f ≠ .closed) (ht : t.files = s.files.set i g) (hsetup : t.setupPending = false)
    (hcounter : -2^31 ≤ t.counter) (hserved : f.Served s → g.Served t) : Inv t := by
  obtain hnil | ⟨n,f',hfiles,hf'⟩ := hs.files
  · simp [hnil] at hi
  · rw [hfiles] at hi
    obtain ⟨rfl,rfl⟩ := in_use_last hi hf
    exact ⟨.inr ⟨i,g,by rw [ht,hfiles,set_last],hserved hf'⟩,hsetup,hcounter⟩

/-- A step that leaves the files alone. -/
theorem Inv.timer {s t : State} (hs : Inv s) (ht : t.files = s.files) (hsetup : t.setupPending = s.setupPending)
    (hcounter : -2^31 ≤ t.counter) (hserved : ∀ f ∈ s.files, File.Served f s → File.Served f t) : Inv t := by
  obtain ⟨hfiles,hset,-⟩ := hs
  refine ⟨hfiles.imp (fun h => ht.trans h) ?_,hsetup.trans hset,hcounter⟩
  rintro ⟨n,f,hfiles,hf⟩
  exact ⟨n,f,ht.trans hfiles,hserved f (by simp [hfiles]) hf⟩

/-- An expiration leaves the timer as armed as it was. -/
theorem File.Served.timer {s t : State} {f : File} (h : f.Served s) (harmed : t.timer.Armed ↔ s.timer.Armed)
    (hcounter : ∀ vals, f = .opened vals → s.counter ≤ t.counter) : f.Served t := by
  cases f with
  | timerSetup | modTimer => exact harmed.not.mpr h
  | atomicSet => exact harmed.mpr h
  | opened vals => exact ⟨harmed.mpr h.1,h.2.1,fun v hv => (h.2.2 v hv).trans (hcounter vals rfl)⟩
  | closed => trivial

/-- `timer_setup` is applied to a timer that nothing will start. -/
theorem Inv.setup_not_armed {s : State} {i : ℕ} (hs : Inv s) (hi : s.files[i]? = some .timerSetup) :
    ¬ s.timer.Armed := by
  obtain hnil | ⟨n,f,hfiles,hf⟩ := hs.files
  · simp [hnil] at hi
  · rw [hfiles] at hi
    obtain ⟨-,rfl⟩ := in_use_last hi nofun
    exact hf

theorem inv_open {s t : State} {i : ℕ} (h : secondOpen s i = some t) (hs : Inv s) : Inv t := by
  unfold secondOpen at h
  split at h
  · rename_i hi
    cases h
    obtain ⟨hpending,hhandler⟩ := Timer.not_armed_iff.mp (hs.setup_not_armed hi)
    refine hs.file hi nofun rfl ?_ hs.counter fun _ => Timer.not_armed_iff.mpr ⟨rfl,hhandler⟩
    simp [hs.setup, hpending]
  · rename_i hi
    cases h
    exact hs.file hi nofun rfl hs.setup hs.counter fun _ => Timer.modTimer_armed _
  · rename_i hi
    cases h
    exact hs.file hi nofun rfl hs.setup (show (-2^31 : ℤ) ≤ 0 by decide) fun ha => ⟨ha,.nil,by simp⟩
  · contradiction

theorem inv_read {s t : State} {i : ℕ} {fault : Bool} (h : secondRead s i fault = some t) (hs : Inv s) : Inv t := by
  unfold secondRead at h
  split at h
  · rename_i vals hi
    split_ifs at h with hfault
    · cases h; exact hs
    · cases h
      refine hs.file hi nofun rfl hs.setup hs.counter fun ⟨ha,hord,hle⟩ => ⟨ha,?_,?_⟩
      · rw [List.pairwise_append]
        exact ⟨hord,by simp,by simpa using hle⟩
      · intro v hv
        obtain hold | rfl := by simpa using hv
        · exact hle v hold
        · exact le_rfl
  · contradiction

theorem inv_release {s t : State} {i : ℕ} (h : secondRelease s i = some t) (hs : Inv s) : Inv t := by
  unfold secondRelease at h
  split at h
  · rename_i vals hi
    cases h
    exact hs.file hi nofun rfl hs.setup hs.counter fun _ => trivial
  · contradiction

theorem inv_step {s t : State} {a : Act} (h : step s a = some t) (hC : Alone s a) (hs : Inv s) : Inv t := by
  cases a with
  | start =>
    cases h
    refine ⟨.inr ⟨s.files.length,.timerSetup,?_,hC.2⟩,hs.setup,hs.counter⟩
    show s.files ++ _ = _
    rw [← List.eq_replicate_of_mem hC.1]
  | «open» i => exact inv_open h hs
  | read i fault => exact inv_read h hs
  | release i => exact inv_release h hs
  | fire =>
    simp only [step, Option.map_eq_some_iff] at h
    obtain ⟨u,hu,rfl⟩ := h
    exact hs.timer rfl rfl hs.counter fun f _ hf => hf.timer (Timer.fire_armed_iff hu) fun _ _ => le_rfl
  | modTimer =>
    simp only [step, Option.map_eq_some_iff] at h
    obtain ⟨u,hu,rfl⟩ := h
    exact hs.timer rfl rfl hs.counter fun f _ hf => hf.timer (Timer.rearm_armed_iff hu) fun _ _ => le_rfl
  | atomicInc =>
    simp only [step, Option.ite_none_right_eq_some, Option.some.injEq] at h
    obtain ⟨-,rfl⟩ := h
    refine hs.timer rfl rfl (atomicInc_ge s.counter) fun f hmem hf => hf.timer Iff.rfl ?_
    rintro vals rfl
    have hlow := hs.counter
    have hhigh : s.counter < 2^31-1 := hC (List.any_eq_true.mpr ⟨_,hmem,rfl⟩)
    have hinc : atomicInc s.counter = s.counter+1 := Int.bmod_eq_of_le (by omega) (by omega)
    simp [hinc]
  | finish =>
    simp only [step, Option.ite_none_right_eq_some, Option.map_eq_some_iff] at h
    obtain ⟨-,u,hu,rfl⟩ := h
    exact hs.timer rfl rfl hs.counter fun f _ hf => hf.timer (Timer.finish_armed_iff hu) fun _ _ => le_rfl

theorem served_of_opened {s : State} {vals : List ℤ} (hs : Inv s) (h : .opened vals ∈ s.files) :
    s.timer.Armed ∧ vals.Pairwise (· ≤ ·) := by
  obtain hnil | ⟨n,f,hfiles,hf⟩ := hs.files
  · simp [hnil] at h
  · rw [hfiles,List.mem_append] at h
    obtain h | h := h
    · exact absurd (List.eq_of_mem_replicate h) nofun
    · cases List.mem_singleton.mp h
      exact ⟨hf.1,hf.2.1⟩

theorem serves_of_inv {s : State} (hs : Inv s) : Serves s where
  ticking _ h := (served_of_opened hs h).1.not_dead
  setup := hs.setup
  ordered _ h := (served_of_opened hs h).2

/-- Opened by one process at a time, the seconds counter serves it. -/
theorem serves_of_alone {acts : List Act} {s : State} (hC : Meets step Alone loaded acts)
    (h : run step loaded acts = some s) : Serves s :=
  serves_of_inv (run_invariant_of_meets (fun _ _ _ => inv_step) hC h inv_loaded)

/-- One process reads 0 and 1; a second one opens the device after it. -/
theorem serves_of_alone_reopened : ∃ acts s, run step loaded acts = some s ∧
    s.files = [.closed,.opened [0]] ∧ s.counter = 0 ∧ Serves s := by
  let acts : List Act := [.start,.open 0,.open 0,.open 0,.read 0 false,.fire,.modTimer,.atomicInc,.finish,
    .read 0 false,.release 0,.start,.open 1,.open 1,.open 1,.read 1 false]
  obtain ⟨s,hs,hp⟩ := exists_of_run_any step loaded acts
    (fun s => s.files = [.closed,.opened [0]] ∧ s.counter = 0) (by decide)
  simp only [decide_eq_true_eq] at hp
  have hC : Meets step Alone loaded acts :=
    meets_of_check (fun s a => decide (Alone s a)) (fun _ _ h => of_decide_eq_true h) (by decide)
  exact ⟨acts,s,hs,hp.1,hp.2,serves_of_alone hC hs⟩

/-- One expiration of the timer, with its handler. -/
def tick : List Act := [.fire,.modTimer,.atomicInc,.finish]

theorem run_tick {s : State} (h : s.timer = ⟨true,.idle⟩) :
    run step s tick = some {s with counter := atomicInc s.counter, counted := true} := by
  simp [run, step, tick, h, Timer.fire, Timer.rearm, Timer.finish]

/-- The counter counts the expirations, modulo the width of `int`. -/
theorem run_ticks (n : ℕ) {s : State} (h : s.timer = ⟨true,.idle⟩) (hc : s.counter.bmod (2^32) = s.counter) :
    ∃ t, run step s (List.replicate n tick).flatten = some t ∧ t.timer = ⟨true,.idle⟩ ∧ t.files = s.files ∧
      t.counter = (s.counter+n).bmod (2^32) := by
  induction n generalizing s with
  | zero => exact ⟨s,rfl,h,rfl,by simpa using hc.symm⟩
  | succ n ih =>
    obtain ⟨t,ht,hpending,hfiles,hcounter⟩ :=
      ih (s := {s with counter := atomicInc s.counter, counted := true}) h Int.bmod_bmod
    refine ⟨t,?_,hpending,hfiles,?_⟩
    · rw [List.replicate_succ,List.flatten_cons]
      exact run_append_eq_some.mpr ⟨_,run_tick h,ht⟩
    · rw [hcounter]
      simp only [atomicInc, Int.bmod_add_bmod]
      push_cast
      congr 1
      ring

theorem step_read {s : State} {i : ℕ} {vals : List ℤ} (hi : s.files[i]? = some (.opened vals)) :
    step s (.read i false) = some {s with files := s.files.set i (.opened (vals ++ [s.counter]))} := by
  simp [step, secondRead, hi]

theorem step_setup {s : State} {i : ℕ} (hi : s.files[i]? = some .timerSetup) :
    step s (.open i) = some {s with
      timer := timerSetup s.timer
      files := s.files.set i .modTimer
      setupPending := s.setupPending || s.timer.pending} := by
  simp only [step, secondOpen, hi]

theorem step_start {s : State} {i : ℕ} (hi : s.files[i]? = some .modTimer) :
    step s (.open i) = some {s with timer := s.timer.modTimer, files := s.files.set i .atomicSet} := by
  simp only [step, secondOpen, hi]

/-- While a file stays open the counter comes to wrap between two of its reads. -/
theorem run_wrap {s : State} {i : ℕ} {vals : List ℤ} (h : s.timer = ⟨true,.idle⟩)
    (hi : s.files[i]? = some (.opened vals)) (hc : s.counter.bmod (2^32) = s.counter) :
    ∃ acts u, run step s acts = some u ∧ u.files = s.files.set i (.opened (vals ++ [2^31-1,-2^31])) := by
  have hmax : s.counter ≤ 2^31-1 := by
    have := Int.bmod_lt (x := s.counter) (m := 2^32) (by decide)
    omega
  obtain ⟨t,ht,hpending,hfiles,hcounter⟩ := run_ticks (2^31-1-s.counter).toNat h hc
  have hlast : t.counter = 2^31-1 := by
    rw [hcounter,Int.toNat_of_nonneg (by omega),add_sub_cancel]
    decide
  let u : State := {t with files := s.files.set i (.opened (vals ++ [t.counter]))}
  have hu : step t (.read i false) = some u := by
    rw [step_read (show t.files[i]? = some (.opened vals) by rw [hfiles,hi]),hfiles]
  let v : State := {u with counter := -2^31, counted := true}
  have hv : run step u tick = some v := by
    rw [run_tick (s := u) hpending]
    have hwrap : atomicInc t.counter = -2^31 := by rw [hlast]; decide
    show some {u with counter := atomicInc t.counter, counted := true} = some v
    rw [hwrap]
  have hvi : v.files[i]? = some (.opened (vals ++ [t.counter])) := by
    obtain ⟨hlt,-⟩ := List.getElem?_eq_some_iff.mp hi
    exact List.getElem?_set_self hlt
  let w : State := {v with files := v.files.set i (.opened (vals ++ [t.counter] ++ [-2^31]))}
  have hw : run step v [.read i false] = some w := run_cons_eq_some.mpr ⟨w,step_read hvi,rfl⟩
  have hreads : run step t (.read i false::(tick ++ [.read i false])) = some w :=
    run_cons_eq_some.mpr ⟨u,hu,run_append_eq_some.mpr ⟨v,hv,hw⟩⟩
  refine ⟨_,w,run_append_eq_some.mpr ⟨t,ht,hreads⟩,?_⟩
  show (s.files.set i _).set i _ = _
  rw [List.set_set,List.append_assoc,hlast]
  rfl

/-- Two openers: the second open sets up the pending timer, and the release of the first file
stops the timer of the second. A single opener that stays long enough sees the counter wrap. -/
theorem openers_overlap :
    (∃ acts s, run step loaded acts = some s ∧ .opened [] ∈ s.files ∧ s.timer.Dead ∧ s.setupPending = true) ∧
    ∃ acts s, run step loaded acts = some s ∧ s.files = [.opened [2^31-1,-2^31]] := by
  constructor
  · obtain ⟨s,hs,hp⟩ := exists_of_run_any step loaded
      [.start,.open 0,.open 0,.open 0,.start,.open 1,.open 1,.open 1,.release 0]
      (fun s => .opened [] ∈ s.files ∧ s.timer.Dead ∧ s.setupPending = true) (by decide)
    simp only [decide_eq_true_eq] at hp
    exact ⟨_,s,hs,hp⟩
  · obtain ⟨s,hs,hp⟩ := exists_of_run_any step loaded [.start,.open 0,.open 0,.open 0]
      (fun s => s.timer = ⟨true,.idle⟩ ∧ s.files = [.opened []] ∧ s.counter = 0) (by decide)
    simp only [decide_eq_true_eq] at hp
    obtain ⟨hpending,hfiles,hzero⟩ := hp
    obtain ⟨acts,u,hu,hwrapped⟩ := run_wrap (i := 0) hpending (by rw [hfiles]; rfl) (by rw [hzero]; decide)
    exact ⟨_,u,run_append_eq_some.mpr ⟨s,hs,hu⟩,by rw [hwrapped,hfiles]; rfl⟩

section Unserved

/-- An armed timer may be pending when a file that is being opened sets it up. -/
theorem setup_of_armed {s : State} {i : ℕ} (h : s.timer.Armed) (hi : s.files[i]? = some .timerSetup) :
    ∃ acts u, run step s acts = some u ∧ u.setupPending = true := by
  by_cases hpending : s.timer.pending = true
  · exact ⟨[.open i],_,run_cons_eq_some.mpr ⟨_,step_setup hi,rfl⟩,by simp [hpending]⟩
  · have hentered : s.timer.handler = .entered := h.resolve_left hpending
    have hrearm : step s .modTimer = some {s with timer := ⟨true,.rearmed⟩} := by
      simp [step, Timer.rearm, hentered]
    have hsetup := step_setup (s := {s with timer := ⟨true,.rearmed⟩}) hi
    have hrun := run_cons_eq_some.mpr ⟨_,hrearm,run_cons_eq_some.mpr ⟨_,hsetup,run_nil step _⟩⟩
    exact ⟨_,_,hrun,by simp⟩

/-- A file that is being opened goes on to start the timer. -/
theorem armed_of_opening {s : State} {i : ℕ} (hi : s.files[i]? = some .timerSetup ∨ s.files[i]? = some .modTimer) :
    ∃ acts u, run step s acts = some u ∧ u.timer.Armed ∧ ∀ j, j ≠ i → u.files[j]? = s.files[j]? := by
  have hstart : ∀ t : State, t.files[i]? = some .modTimer → ∃ u, step t (.open i) = some u ∧ u.timer.Armed ∧
      ∀ j, j ≠ i → u.files[j]? = t.files[j]? := fun t ht =>
    ⟨_,step_start ht,.inl rfl,fun j hj => List.getElem?_set_ne (Ne.symm hj)⟩
  obtain hi | hi := hi
  · obtain ⟨hlt,-⟩ := List.getElem?_eq_some_iff.mp hi
    obtain ⟨t,ht,hfiles⟩ : ∃ t, step s (.open i) = some t ∧ t.files = s.files.set i .modTimer :=
      ⟨_,step_setup hi,rfl⟩
    obtain ⟨u,hu,harmed,hother⟩ := hstart t (by rw [hfiles]; exact List.getElem?_set_self hlt)
    refine ⟨[.open i,.open i],u,run_cons_eq_some.mpr ⟨t,ht,run_cons_eq_some.mpr ⟨u,hu,rfl⟩⟩,harmed,fun j hj => ?_⟩
    rw [hother j hj,hfiles,List.getElem?_set_ne (Ne.symm hj)]
  · obtain ⟨u,hu,harmed,hother⟩ := hstart s hi
    exact ⟨[.open i],u,run_cons_eq_some.mpr ⟨u,hu,rfl⟩,harmed,hother⟩

/-- An open beside another one, or before the timer is laid to rest, can set up a pending timer. -/
theorem setup_of_start {s t : State} (hs : Inv s) (ht : step s .start = some t) (hbad : ¬ Alone s .start) :
    ∃ acts u, run step t acts = some u ∧ u.setupPending = true := by
  cases ht
  have hnew : (s.files ++ [.timerSetup])[s.files.length]? = some .timerSetup := by simp
  by_cases harmed : s.timer.Armed
  · exact setup_of_armed (s := {s with files := s.files ++ [.timerSetup]}) harmed hnew
  · obtain hnil | ⟨n,f,hfiles,hf⟩ := hs.files
    · exact absurd ⟨by simp [hnil],harmed⟩ hbad
    · have hi : s.files[n]? = some f := by simp [hfiles]
      obtain ⟨hlt,-⟩ := List.getElem?_eq_some_iff.mp hi
      have hopening : f = .timerSetup ∨ f = .modTimer := by
        cases f with
        | timerSetup => exact .inl rfl
        | modTimer => exact .inr rfl
        | atomicSet => exact absurd hf harmed
        | opened vals => exact absurd hf.1 harmed
        | closed =>
          refine absurd ⟨fun f hf => ?_,harmed⟩ hbad
          rw [hfiles,← List.replicate_succ'] at hf
          exact List.eq_of_mem_replicate hf
      obtain ⟨as,u,hu,harmedu,hother⟩ := armed_of_opening (s := {s with files := s.files ++ [.timerSetup]}) (i := n)
        (hopening.imp (fun h => by rw [List.getElem?_append_left hlt,hi,h])
          fun h => by rw [List.getElem?_append_left hlt,hi,h])
      obtain ⟨bs,v,hv,hpending⟩ := setup_of_armed harmedu ((hother _ hlt.ne').trans hnew)
      exact ⟨as ++ bs,v,run_append_eq_some.mpr ⟨u,hu,hv⟩,hpending⟩

/-- From every step that is not alone the run can be continued to a state in which some opener is not
served. -/
theorem unserved_of_not_alone {acts : List Act} {s t : State} {a : Act} (hC : Meets step Alone loaded acts)
    (h : run step loaded acts = some s) (ht : step s a = some t) (hbad : ¬ Alone s a) :
    ∃ more u, run step t more = some u ∧ ¬ Serves u := by
  have hs : Inv s := run_invariant_of_meets (fun _ _ _ => inv_step) hC h inv_loaded
  cases a with
  | start =>
    obtain ⟨more,u,hu,hpending⟩ := setup_of_start hs ht hbad
    refine ⟨more,u,hu,fun hserves => ?_⟩
    rw [hserves.setup] at hpending
    contradiction
  | atomicInc =>
    simp only [step, Option.ite_none_right_eq_some, Option.some.injEq] at ht
    obtain ⟨⟨hre,-⟩,rfl⟩ := ht
    obtain ⟨f,hf,hopened⟩ := List.any_eq_true.mp (Classical.not_imp.mp hbad).1
    obtain ⟨i,hi⟩ := List.mem_iff_getElem?.mp hf
    cases f with
    | opened vals =>
      have hpending : s.timer.pending = true := by
        exact (served_of_opened hs hf).1.resolve_right (by rw [hre]; nofun)
      let u : State := {s with timer := ⟨true,.idle⟩, counter := atomicInc s.counter, counted := true}
      have hu : step {s with counter := atomicInc s.counter, counted := true} .finish = some u := by
        simp [step, Timer.finish, hre, hpending, u]
      obtain ⟨more,v,hv,hfiles⟩ := run_wrap (s := u) rfl hi Int.bmod_bmod
      refine ⟨_,v,run_cons_eq_some.mpr ⟨u,hu,hv⟩,fun hserves => ?_⟩
      have hlast := hserves.ordered _ (hfiles ▸ mem_set_of_getElem? hi _)
      exact absurd (List.pairwise_append.mp hlast).2.1 (by decide)
    | _ => contradiction
  | _ => exact absurd trivial hbad

end Unserved

section Stop

/-- Once every file is closed the timer is dead. -/
def Stopped (s : State) : Prop := (∀ f ∈ s.files, f = .closed) → s.timer.Dead

/-- When the last file is released, the handler does not run. -/
def Drained (s : State) : Act → Prop
  | .release i => (∀ f ∈ s.files.set i .closed, f = .closed) → s.timer.handler = .idle
  | _ => True

instance (s : State) : DecidablePred (Drained s)
  | .release i => inferInstanceAs (Decidable ((∀ f ∈ s.files.set i .closed, f = .closed) → s.timer.handler = .idle))
  | .start | .open _ | .read _ _ | .fire | .modTimer | .atomicInc | .finish => inferInstanceAs (Decidable True)

theorem stopped_of_mem {s : State} {f : File} (h : f ∈ s.files) (hf : f ≠ .closed) : Stopped s :=
  fun hall => absurd (hall f h) hf

/-- A step that only a live timer takes. -/
theorem stopped_of_live {s t : State} (h : Stopped s) (hlive : ¬ s.timer.Dead) (ht : t.files = s.files) :
    Stopped t := by
  intro hall
  rw [ht] at hall
  exact absurd (h hall) hlive

theorem stopped_step {s t : State} {a : Act} (h : step s a = some t) (hs : Stopped s) :
    Stopped t ↔ Drained s a := by
  cases a with
  | release i =>
    simp only [step, secondRelease] at h
    split at h
    · cases h
      exact imp_congr_right fun _ => Timer.delTimer_dead_iff
    · contradiction
  | start =>
    cases h
    exact iff_of_true (stopped_of_mem (List.mem_append_right _ (List.mem_singleton_self _)) nofun) trivial
  | «open» i =>
    simp only [step, secondOpen] at h
    split at h <;> first | contradiction | skip
    all_goals
      rename_i hi
      cases h
      exact iff_of_true (stopped_of_mem (mem_set_of_getElem? hi _) nofun) trivial
  | read i fault =>
    simp only [step, secondRead] at h
    split at h
    · rename_i vals hi
      split_ifs at h <;> cases h
      · exact iff_of_true hs trivial
      · exact iff_of_true (stopped_of_mem (mem_set_of_getElem? hi _) nofun) trivial
    · contradiction
  | fire =>
    simp only [step, Option.map_eq_some_iff] at h
    obtain ⟨u,hu,rfl⟩ := h
    exact iff_of_true (stopped_of_live hs (Timer.not_dead_of_fire hu) rfl) trivial
  | modTimer =>
    simp only [step, Option.map_eq_some_iff] at h
    obtain ⟨u,hu,rfl⟩ := h
    exact iff_of_true (stopped_of_live hs (Timer.not_dead_of_rearm hu) rfl) trivial
  | atomicInc =>
    simp only [step, Option.ite_none_right_eq_some, Option.some.injEq] at h
    obtain ⟨-,rfl⟩ := h
    exact iff_of_true hs trivial
  | finish =>
    simp only [step, Option.ite_none_right_eq_some, Option.map_eq_some_iff] at h
    obtain ⟨-,u,hu,rfl⟩ := h
    exact iff_of_true (stopped_of_live hs (Timer.not_dead_of_finish hu) rfl) trivial

theorem stopped_loaded : Stopped loaded := fun _ => Timer.stopped_dead

/-- A run leaves no timer behind a last release exactly when no last release meets the handler. -/
theorem always_stopped_iff {acts : List Act} {s : State} (h : run step loaded acts = some s) :
    Always step Stopped loaded acts ↔ Meets step Drained loaded acts :=
  always_iff_meets (I := fun _ => True) (fun _ _ _ _ _ => trivial) (fun _ _ _ ht _ hs => stopped_step ht hs)
    h trivial stopped_loaded

end Stop

end ExampleKernel.Second
