import ExampleKernel.Foundation.Periodic
import ExampleKernel.Timers.Second

/-! The seconds driver against the clock, and main_second, which prints the seconds that it reads. -/
namespace ExampleKernel.Second.Clock
open ExampleKernel.Foundation ExampleKernel.Kernel

/-- The device, the clock in ticks, and the expiry of the timer. The rest is history, since the `mod_timer` of the
last open: when that was, how often the handler has set the timer again, the ticks it lost by running late, the
increments that `atomic_set` wiped out, the values read with the time of the read, and whether a count has been
passed over, which no read has delivered before the next. -/
structure State where
  dev : Second.State
  jiffies : ℕ
  expires : ℕ
  opened : ℕ
  fires : ℕ
  late : ℕ
  dropped : ℕ
  reads : List (ℕ × ℤ)
  passed : Bool

/-- The handler has set the timer again and has not counted yet. -/
def State.inflight (s : State) : ℕ := if s.dev.timer.handler = .rearmed ∧ s.dev.counted = false then 1 else 0

inductive Act
  | wait (ticks : ℕ)
  | dev (a : Second.Act)

/-- The last value read through the file is the one that the counter has. -/
def upToDate (counter : ℤ) : File → Bool
  | .opened vals => vals.getLastD 0 = counter
  | _ => true

/-- What the statements of the driver do beside the device: both calls of `mod_timer` set the expiry to `jiffies+HZ`. -/
def clocked (hz : ℕ) (s : State) : Second.Act → State
  | .open i =>
    match s.dev.files[i]? with
    | some .modTimer => {s with expires := s.jiffies+hz, opened := s.jiffies, fires := 0, late := 0}
    | some .atomicSet => {s with dropped := s.fires-s.inflight, reads := [], passed := false}
    | _ => s
  | .modTimer => {s with
      expires := s.jiffies+hz
      fires := s.fires+1
      late := s.late+(s.jiffies-s.expires)}
  | .atomicInc => {s with passed := s.passed || !s.dev.files.all (upToDate s.dev.counter)}
  | .read _ fault => if fault then s else {s with reads := s.reads ++ [(s.jiffies,s.dev.counter)]}
  | _ => s

/-- A timer never runs before its time. -/
def Due (s : State) : Second.Act → Prop
  | .fire => s.expires ≤ s.jiffies
  | _ => True

instance (s : State) : DecidablePred (Due s)
  | .fire => inferInstanceAs (Decidable (s.expires ≤ s.jiffies))
  | .start | .open _ | .read _ _ | .release _ | .modTimer | .atomicInc | .finish => inferInstanceAs (Decidable True)

def step (hz : ℕ) (s : State) : Act → Option State
  | .wait ticks => some {s with jiffies := s.jiffies+ticks}
  | .dev a => if Due s a then (Second.step s.dev a).map fun d => {clocked hz s a with dev := d} else none

/-- After `second_init`, at the time `start`. -/
def loaded (start : ℕ) : State where
  dev := Second.loaded
  jiffies := start
  expires := 0
  opened := 0
  fires := 0
  late := 0
  dropped := 0
  reads := []
  passed := false

/-- A file is opened only when no other is in use and the timer is at rest, and while a file is open the counter is
incremented only within `int`. -/
def Rested (s : State) : Act → Prop
  | .dev .start => (∀ f ∈ s.dev.files, f = .closed) ∧ s.dev.timer.Dead
  | .dev .atomicInc => s.dev.files.any File.isOpened = true → s.dev.counter < 2^31-1
  | _ => True

instance (s : State) : DecidablePred (Rested s)
  | .dev .start => inferInstanceAs (Decidable ((∀ f ∈ s.dev.files, f = .closed) ∧ s.dev.timer.Dead))
  | .dev .atomicInc => inferInstanceAs (Decidable (s.dev.files.any File.isOpened = true → s.dev.counter < 2^31-1))
  | .wait _ | .dev (.open _) | .dev (.read _ _) | .dev (.release _) | .dev .fire | .dev .modTimer | .dev .finish =>
    inferInstanceAs (Decidable True)

/-- The loop of `main` of main_second over the values that its reads deliver: what it prints. -/
def mainSecond (oldCounter : ℤ) : List ℤ → List ℤ
  | [] => []
  | counter::rest => if counter ≠ oldCounter then counter::mainSecond counter rest else mainSecond oldCounter rest

section Printing

theorem mainSecond_concat (v : ℤ) (vals : List ℤ) : ∀ old,
    mainSecond old (vals ++ [v]) = mainSecond old vals ++ if v ≠ vals.getLastD old then [v] else [] := by
  induction vals with
  | nil => intro old; simp [mainSecond]
  | cons w vals ih =>
    intro old
    rw [List.cons_append,List.getLastD_cons]
    unfold mainSecond
    split_ifs with hw hv hv
    · rw [ih,if_pos hv,List.cons_append]
    · rw [ih,if_neg hv,List.append_nil,List.append_nil]
    · rw [ih,← not_not.mp hw,if_pos hv]
    · rw [ih,← not_not.mp hw,if_neg hv]

theorem mem_of_mem_mainSecond {v : ℤ} {vals : List ℤ} : ∀ {old}, v ∈ mainSecond old vals → v ∈ vals := by
  induction vals with
  | nil => exact id
  | cons w vals ih =>
    intro old hv
    unfold mainSecond at hv
    split_ifs at hv
    · exact (List.mem_cons.mp hv).elim (fun h => h ▸ List.mem_cons_self) fun h => List.mem_cons_of_mem _ (ih h)
    · exact List.mem_cons_of_mem _ (ih hv)

/-- Values that never fall are printed in strict order. -/
theorem mainSecond_increases {vals : List ℤ} (hord : vals.Pairwise (· ≤ ·)) : ∀ {old}, (∀ v ∈ vals, old ≤ v) →
    (mainSecond old vals).Pairwise (· < ·) ∧ ∀ v ∈ mainSecond old vals, old < v := by
  induction vals with
  | nil => exact fun _ => ⟨.nil,by simp [mainSecond]⟩
  | cons w vals ih =>
    intro old hold
    obtain ⟨hw,hrest⟩ := List.pairwise_cons.mp hord
    have hle : old ≤ w := hold w List.mem_cons_self
    unfold mainSecond
    split_ifs with hne
    · obtain ⟨hpair,hlow⟩ := ih hrest hw
      have hlt : old < w := lt_of_le_of_ne hle (Ne.symm hne)
      exact ⟨List.pairwise_cons.mpr ⟨hlow,hpair⟩,
        List.forall_mem_cons.mpr ⟨hlt,fun v hv => hlt.trans (hlow v hv)⟩⟩
    · exact ih hrest fun v hv => hold v (List.mem_cons_of_mem _ hv)

end Printing

def State.alarm (s : State) : Alarm := ⟨s.expires,s.fires,s.late⟩

/-- The timer, from the `mod_timer` of the open on. -/
structure Ticking (hz : ℕ) (s : State) : Prop where
  paced : s.alarm.Paced s.opened hz s.jiffies
  entered : s.dev.timer.handler = .entered → s.expires ≤ s.jiffies ∧ s.dev.counted = false
  inflight : s.inflight ≤ s.fires

/-- The program has printed all seconds up to the last value read, and the counter is at most one ahead. -/
def Seen (counter : ℤ) (vals : List ℤ) : Prop :=
  ∃ n : ℕ, vals.getLastD 0 = n ∧ mainSecond 0 vals = (List.range n).map (fun k : ℕ => (k : ℤ)+1) ∧
    (counter = n ∨ counter = n+1)

theorem seen_nil : Seen 0 [] := ⟨0,rfl,rfl,.inl rfl⟩

theorem Seen.read {counter : ℤ} {vals : List ℤ} (h : Seen counter vals) : Seen counter (vals ++ [counter]) := by
  obtain ⟨n,hlast,hprinted,rfl | rfl⟩ := h
  · refine ⟨n,by simp,?_,.inl rfl⟩
    rw [mainSecond_concat,hlast,if_neg (not_not.mpr rfl),List.append_nil,hprinted]
  · refine ⟨n+1,by simp,?_,.inl (by push_cast; rfl)⟩
    rw [mainSecond_concat,hlast,if_pos (by omega),hprinted,List.range_succ,List.map_append]
    rfl

theorem Seen.count {counter : ℤ} {vals : List ℤ} (h : Seen counter vals) (hlast : vals.getLastD 0 = counter) :
    Seen (counter+1) vals := by
  obtain ⟨n,hn,hprinted,-⟩ := h
  exact ⟨n,hn,hprinted,.inr (by rw [← hlast,hn])⟩

/-- The counter, while the file is open that has read `vals`. -/
structure Counting (hz : ℕ) (s : State) (vals : List ℤ) : Prop where
  count : s.dev.counter+s.inflight+s.dropped = s.fires
  nonneg : 0 ≤ s.dev.counter
  reads : s.reads.map Prod.snd = vals
  inTime : ∀ r ∈ s.reads, 0 ≤ r.2 ∧ r.2 ≤ s.dev.counter ∧ s.opened+hz*r.2 ≤ r.1
  ordered : vals.Pairwise (· ≤ ·)
  seen : s.passed = false → Seen s.dev.counter vals

/-- What holds while the file is the one in use. -/
def Clocked (hz : ℕ) (s : State) : File → Prop
  | .timerSetup | .modTimer => s.dev.timer.Dead
  | .atomicSet => Ticking hz s
  | .opened vals => Ticking hz s ∧ Counting hz s vals
  | .closed => True

def Inv (hz : ℕ) (s : State) : Prop :=
  s.dev.files = [] ∨ ∃ n f, s.dev.files = List.replicate n .closed ++ [f] ∧ Clocked hz s f

section Steps
variable {hz : ℕ} {s t : State}

theorem Inv.mem {f : File} (hs : Inv hz s) (hmem : f ∈ s.dev.files) : Clocked hz s f := by
  obtain hnil | ⟨n,g,hfiles,hg⟩ := hs
  · simp [hnil] at hmem
  · rw [hfiles,List.mem_append,List.mem_singleton] at hmem
    obtain hold | rfl := hmem
    · rw [List.eq_of_mem_replicate hold]
      trivial
    · exact hg

/-- A step of the file in use. -/
theorem Inv.file {i : ℕ} {f g : File} (hs : Inv hz s) (hi : s.dev.files[i]? = some f) (hf : f ≠ .closed)
    (ht : t.dev.files = s.dev.files.set i g) (hg : Clocked hz s f → Clocked hz t g) : Inv hz t := by
  obtain hnil | ⟨n,f',hfiles,hf'⟩ := hs
  · simp [hnil] at hi
  · rw [hfiles] at hi
    obtain ⟨rfl,rfl⟩ := in_use_last hi hf
    exact .inr ⟨i,g,by rw [ht,hfiles,set_last],hg hf'⟩

/-- A step that leaves the files alone. -/
theorem Inv.timer (hs : Inv hz s) (ht : t.dev.files = s.dev.files)
    (hf : ∀ f ∈ s.dev.files, Clocked hz s f → Clocked hz t f) : Inv hz t := by
  obtain hnil | ⟨n,f,hfiles,hc⟩ := hs
  · exact .inl (ht.trans hnil)
  · exact .inr ⟨n,f,ht.trans hfiles,hf f (by simp [hfiles]) hc⟩

theorem step_dev {a : Second.Act} (h : step hz s (.dev a) = some t) :
    Due s a ∧ ∃ d, Second.step s.dev a = some d ∧ t = {clocked hz s a with dev := d} := by
  simp only [step, Option.ite_none_right_eq_some, Option.map_eq_some_iff] at h
  obtain ⟨hdue,d,hd,rfl⟩ := h
  exact ⟨hdue,d,hd,rfl⟩

/-- A count is never ahead of the clock. -/
theorem counter_le (ht : Ticking hz s) {vals : List ℤ} (hc : Counting hz s vals) :
    (s.opened : ℤ)+hz*s.dev.counter ≤ s.jiffies := by
  have hfires : s.opened+hz*s.fires+s.late ≤ s.jiffies := ht.paced.fires_le
  have hcount := hc.count
  have hle : (hz : ℤ)*s.dev.counter ≤ hz*s.fires := by
    apply mul_le_mul_of_nonneg_left _ (Int.natCast_nonneg hz)
    omega
  push_cast [← Int.ofNat_le] at hfires
  omega

theorem inflight_idle (h : s.dev.timer.handler ≠ .rearmed) : s.inflight = 0 := if_neg fun hand => h hand.1

theorem inv_open {i : ℕ} (h : step hz s (.dev (.open i)) = some t) (hs : Inv hz s) : Inv hz t := by
  obtain ⟨-,d,hd,rfl⟩ := step_dev h
  simp only [Second.step, secondOpen] at hd
  split at hd
  · rename_i hi
    cases hd
    simp only [clocked, hi]
    exact hs.file hi (by simp) rfl fun hdead => ⟨rfl,hdead.2⟩
  · rename_i hi
    cases hd
    simp only [clocked, hi]
    refine hs.file hi (by simp) rfl fun hdead => ⟨⟨?_,?_⟩,?_,?_⟩
    · simp [State.alarm]
    · exact le_rfl
    · exact fun hentered => Phase.noConfusion (hdead.2.symm.trans hentered)
    · exact (inflight_idle fun hre => Phase.noConfusion (hdead.2.symm.trans hre)).le
  · rename_i hi
    cases hd
    simp only [clocked, hi]
    refine hs.file hi (by simp) rfl fun htick =>
      ⟨⟨htick.paced,htick.entered,htick.inflight⟩,?_,le_rfl,rfl,by simp,.nil,fun _ => seen_nil⟩
    have hle : s.inflight ≤ s.fires := htick.inflight
    show (0 : ℤ)+s.inflight+(s.fires-s.inflight : ℕ) = s.fires
    omega
  · contradiction

theorem inv_read {i : ℕ} {fault : Bool} (h : step hz s (.dev (.read i fault)) = some t) (hs : Inv hz s) :
    Inv hz t := by
  obtain ⟨-,d,hd,rfl⟩ := step_dev h
  simp only [Second.step, secondRead] at hd
  split at hd
  · rename_i vals hi
    cases fault with
    | true => cases hd; exact hs
    | false =>
      cases hd
      refine hs.file hi (by simp) rfl ?_
      rintro ⟨htick,hc⟩
      have hnow := counter_le htick hc
      refine ⟨⟨htick.paced,htick.entered,htick.inflight⟩,hc.count,hc.nonneg,?_,?_,?_,fun hp => (hc.seen hp).read⟩
      · simp [clocked, hc.reads]
      · intro r hr
        obtain hold | rfl := by simpa [clocked] using hr
        · exact hc.inTime r hold
        · exact ⟨hc.nonneg,le_rfl,hnow⟩
      · rw [List.pairwise_append]
        refine ⟨hc.ordered,by simp,fun v hv w hw => ?_⟩
        rw [← hc.reads,List.mem_map] at hv
        obtain ⟨r,hr,rfl⟩ := hv
        rw [List.mem_singleton.mp hw]
        exact (hc.inTime r hr).2.1
  · contradiction

theorem inv_fire (h : step hz s (.dev .fire) = some t) (hs : Inv hz s) : Inv hz t := by
  obtain ⟨hdue,d,hd,rfl⟩ := step_dev h
  simp only [Second.step, Option.map_eq_some_iff] at hd
  obtain ⟨u,hu,rfl⟩ := hd
  have hlive := Timer.not_dead_of_fire hu
  simp only [Timer.fire, Option.ite_none_right_eq_some, Option.some.injEq] at hu
  obtain ⟨⟨-,hidle⟩,rfl⟩ := hu
  have hzero : s.inflight = 0 := inflight_idle (by simp [hidle])
  have htick : Ticking hz s → Ticking hz {s with dev := {s.dev with timer := ⟨false,.entered⟩, counted := false}} :=
    fun h => ⟨h.paced,fun _ => ⟨hdue,rfl⟩,Nat.zero_le _⟩
  refine hs.timer rfl fun f _ hf => ?_
  cases f with
  | timerSetup | modTimer => exact absurd hf hlive
  | atomicSet => exact htick hf
  | opened vals =>
    obtain ⟨ht,hcount,hpos,hreads,hin,hord,hseen⟩ := hf
    rw [hzero] at hcount
    exact ⟨htick ht,hcount,hpos,hreads,hin,hord,hseen⟩
  | closed => trivial

theorem inv_modTimer (h : step hz s (.dev .modTimer) = some t) (hs : Inv hz s) : Inv hz t := by
  obtain ⟨-,d,hd,rfl⟩ := step_dev h
  simp only [Second.step, Option.map_eq_some_iff] at hd
  obtain ⟨u,hu,rfl⟩ := hd
  have hlive := Timer.not_dead_of_rearm hu
  simp only [Timer.rearm, Option.ite_none_right_eq_some, Option.some.injEq] at hu
  obtain ⟨hentered,rfl⟩ := hu
  have hzero : s.inflight = 0 := inflight_idle (by simp [hentered])
  have hnew : Ticking hz s →
      State.inflight {clocked hz s .modTimer with dev := {s.dev with timer := ⟨true,.rearmed⟩}} = 1 :=
    fun h => if_pos ⟨rfl,(h.entered hentered).2⟩
  have htick : Ticking hz s →
      Ticking hz {clocked hz s .modTimer with dev := {s.dev with timer := ⟨true,.rearmed⟩}} := by
    intro h
    refine ⟨Alarm.relative_paced h.paced (h.entered hentered).1,fun he => Phase.noConfusion he,?_⟩
    rw [hnew h]
    exact Nat.succ_pos _
  refine hs.timer rfl fun f _ hf => ?_
  cases f with
  | timerSetup | modTimer => exact absurd hf hlive
  | atomicSet => exact htick hf
  | opened vals =>
    obtain ⟨ht,hcount,hpos,hreads,hin,hord,hseen⟩ := hf
    refine ⟨htick ht,?_,hpos,hreads,hin,hord,hseen⟩
    rw [hnew ht]
    rw [hzero] at hcount
    show s.dev.counter+(1 : ℕ)+s.dropped = (s.fires+1 : ℕ)
    omega
  | closed => trivial

theorem inv_atomicInc (h : step hz s (.dev .atomicInc) = some t) (hC : Rested s (.dev .atomicInc)) (hs : Inv hz s) :
    Inv hz t := by
  obtain ⟨-,d,hd,rfl⟩ := step_dev h
  simp only [Second.step, Option.ite_none_right_eq_some, Option.some.injEq] at hd
  obtain ⟨⟨hre,hcounted⟩,rfl⟩ := hd
  have hone : s.inflight = 1 := if_pos ⟨hre,hcounted⟩
  have hzero : State.inflight {clocked hz s .atomicInc with
      dev := {s.dev with counter := atomicInc s.dev.counter, counted := true}} = 0 :=
    if_neg fun hand => Bool.noConfusion hand.2
  have htick : Ticking hz s →
      Ticking hz {clocked hz s .atomicInc with
        dev := {s.dev with counter := atomicInc s.dev.counter, counted := true}} :=
    fun h => ⟨h.paced,fun he => Phase.noConfusion (hre.symm.trans he),hzero.trans_le (Nat.zero_le _)⟩
  refine hs.timer rfl fun f hmem hf => ?_
  cases f with
  | timerSetup | modTimer => exact Phase.noConfusion (hf.2.symm.trans hre)
  | atomicSet => exact htick hf
  | opened vals =>
    obtain ⟨ht,hcount,hpos,hreads,hin,hord,hseen⟩ := hf
    have hhigh : s.dev.counter < 2^31-1 := hC (List.any_eq_true.mpr ⟨_,hmem,rfl⟩)
    have hinc : atomicInc s.dev.counter = s.dev.counter+1 := Int.bmod_eq_of_le (by omega) (by omega)
    refine ⟨htick ht,?_,?_,hreads,fun r hr => ?_,hord,fun hp => ?_⟩
    · rw [hone] at hcount
      rw [hzero]
      show atomicInc s.dev.counter+(0 : ℕ)+s.dropped = s.fires
      omega
    · show 0 ≤ atomicInc s.dev.counter
      omega
    · obtain ⟨hlow,hle,htime⟩ := hin r hr
      refine ⟨hlow,?_,htime⟩
      show r.2 ≤ atomicInc s.dev.counter
      omega
    · obtain ⟨hold,hall⟩ : s.passed = false ∧ s.dev.files.all (upToDate s.dev.counter) = true := by
        simpa only [clocked, Bool.or_eq_false_iff, Bool.not_eq_false'] using hp
      show Seen (atomicInc s.dev.counter) vals
      rw [hinc]
      exact (hseen hold).count (of_decide_eq_true (List.all_eq_true.mp hall _ hmem))
  | closed => trivial

theorem inv_finish (h : step hz s (.dev .finish) = some t) (hs : Inv hz s) : Inv hz t := by
  obtain ⟨-,d,hd,rfl⟩ := step_dev h
  simp only [Second.step, Option.ite_none_right_eq_some, Option.map_eq_some_iff] at hd
  obtain ⟨hcounted,u,hu,rfl⟩ := hd
  simp only [Timer.finish, Option.ite_none_right_eq_some, Option.some.injEq] at hu
  obtain ⟨hre,rfl⟩ := hu
  have hzero : s.inflight = 0 := if_neg fun hand => Bool.noConfusion (hcounted.symm.trans hand.2)
  have htick : Ticking hz s → Ticking hz {s with dev := {s.dev with timer := {s.dev.timer with handler := .idle}}} :=
    fun h => ⟨h.paced,fun he => Phase.noConfusion he,Nat.zero_le _⟩
  refine hs.timer rfl fun f _ hf => ?_
  cases f with
  | timerSetup | modTimer => exact Phase.noConfusion (hf.2.symm.trans hre)
  | atomicSet => exact htick hf
  | opened vals =>
    obtain ⟨ht,hcount,hpos,hreads,hin,hord,hseen⟩ := hf
    rw [hzero] at hcount
    exact ⟨htick ht,hcount,hpos,hreads,hin,hord,hseen⟩
  | closed => trivial

theorem inv_wait {ticks : ℕ} (hs : Inv hz s) : Inv hz {s with jiffies := s.jiffies+ticks} := by
  have hle : s.jiffies ≤ s.jiffies+ticks := Nat.le_add_right _ _
  have htick : Ticking hz s → Ticking hz {s with jiffies := s.jiffies+ticks} :=
    fun h => ⟨h.paced.mono hle,fun he => ⟨(h.entered he).1.trans hle,(h.entered he).2⟩,h.inflight⟩
  refine hs.timer rfl fun f _ hf => ?_
  cases f with
  | timerSetup | modTimer => exact hf
  | atomicSet => exact htick hf
  | opened vals => exact ⟨htick hf.1,hf.2.count,hf.2.nonneg,hf.2.reads,hf.2.inTime,hf.2.ordered,hf.2.seen⟩
  | closed => trivial

theorem inv_step {a : Act} (h : step hz s a = some t) (hC : Rested s a) (hs : Inv hz s) : Inv hz t := by
  cases a with
  | wait ticks => cases h; exact inv_wait hs
  | dev a =>
    cases a with
    | start =>
      obtain ⟨-,d,hd,rfl⟩ := step_dev h
      cases hd
      refine .inr ⟨s.dev.files.length,.timerSetup,?_,hC.2⟩
      show s.dev.files ++ _ = _
      rw [← List.eq_replicate_of_mem hC.1]
    | «open» i => exact inv_open h hs
    | read i fault => exact inv_read h hs
    | release i =>
      obtain ⟨-,d,hd,rfl⟩ := step_dev h
      simp only [Second.step, secondRelease] at hd
      split at hd
      · rename_i vals hi
        cases hd
        exact hs.file hi (by simp) rfl fun _ => trivial
      · contradiction
    | fire => exact inv_fire h hs
    | modTimer => exact inv_modTimer h hs
    | atomicInc => exact inv_atomicInc h hC hs
    | finish => exact inv_finish h hs

theorem inv_of_rested {start : ℕ} {acts : List Act} (hC : Meets (step hz) Rested (loaded start) acts)
    (h : run (step hz) (loaded start) acts = some s) : Inv hz s :=
  run_invariant_of_meets (fun _ _ _ => inv_step) hC h (.inl rfl)

end Steps

/-- Opened by one process at a time, and only once the timer is at rest, with the counter below 2^31-1 at every
increment while a file is open (`Rested`): a value read is never ahead of the time since the open, main_second
prints in strict order, and every second once if no count is passed over. While the timer is not overdue the
counter is short of the time by exactly what the handler lost, what `atomic_set` wiped out and what the running
handler has not counted yet. -/
theorem seconds_in_time {hz start : ℕ} {acts : List Act} {s : State} {vals : List ℤ} (hhz : 0 < hz)
    (hC : Meets (step hz) Rested (loaded start) acts) (h : run (step hz) (loaded start) acts = some s)
    (hopen : .opened vals ∈ s.dev.files) :
    s.reads.map Prod.snd = vals ∧ (∀ r ∈ s.reads, 0 ≤ r.2 ∧ s.opened+hz*r.2 ≤ r.1) ∧
    ((mainSecond 0 vals).Pairwise (· < ·) ∧ ∀ v ∈ mainSecond 0 vals, 0 < v ∧ ∃ r ∈ s.reads, r.2 = v) ∧
    (s.passed = false →
      mainSecond 0 vals = (List.range (vals.getLastD 0).toNat).map (fun k : ℕ => (k : ℤ)+1)) ∧
    (s.jiffies < s.expires →
      s.dev.counter+s.inflight+s.dropped = ((s.jiffies-s.opened-s.late)/hz : ℕ)) := by
  obtain ⟨htick,hc⟩ : Ticking hz s ∧ Counting hz s vals := (inv_of_rested hC h).mem hopen
  have hmem : ∀ v ∈ vals, ∃ r ∈ s.reads, r.2 = v := by
    intro v hv
    rwa [← hc.reads,List.mem_map] at hv
  have hpos : ∀ v ∈ vals, 0 ≤ v := by
    intro v hv
    obtain ⟨r,hr,rfl⟩ := hmem v hv
    exact (hc.inTime r hr).1
  obtain ⟨hpair,hlow⟩ := mainSecond_increases hc.ordered hpos
  refine ⟨hc.reads,fun r hr => ⟨(hc.inTime r hr).1,(hc.inTime r hr).2.2⟩,⟨hpair,fun v hv => ?_⟩,fun hp => ?_,
    fun hdue => ?_⟩
  · exact ⟨hlow v hv,hmem v (mem_of_mem_mainSecond hv)⟩
  · obtain ⟨n,hlast,hprinted,-⟩ := hc.seen hp
    rw [hprinted,hlast,Int.toNat_natCast]
  · have hfires : s.fires = (s.jiffies-s.opened-s.late)/hz := htick.paced.fires_eq hhz hdue
    rw [hc.count,hfires]

/-- Two seconds at 100 ticks a second; the handler is late for the first one. -/
def watched : List Act :=
  [.dev .start,.dev (.open 0),.dev (.open 0),.dev (.open 0),.dev (.read 0 false),.wait 103,.dev .fire,.dev .modTimer,
    .dev .atomicInc,.dev .finish,.dev (.read 0 false),.wait 100,.dev .fire,.dev .modTimer,.dev (.read 0 false),
    .dev .atomicInc,.dev (.read 0 false)]

theorem seconds_in_time_watched : ∃ s, run (step 100) (loaded 7) watched = some s ∧
    .opened [0,1,1,2] ∈ s.dev.files ∧ mainSecond 0 [0,1,1,2] = [1,2] ∧
      s.dev.counter+s.inflight+s.dropped = ((s.jiffies-s.opened-s.late)/100 : ℕ) := by
  obtain ⟨s,hs,hp⟩ := exists_of_run_any (step 100) (loaded 7) watched
    (fun s => .opened [0,1,1,2] ∈ s.dev.files ∧ s.passed = false ∧ s.jiffies < s.expires) (by decide +kernel)
  obtain ⟨hopen,hp,hdue⟩ := of_decide_eq_true hp
  have hC : Meets (step 100) Rested (loaded 7) watched :=
    meets_of_check (fun s a => decide (Rested s a)) (fun _ _ h => of_decide_eq_true h) (by decide +kernel)
  obtain ⟨-,-,-,hprinted,hcounter⟩ := seconds_in_time (by decide) hC hs hopen
  exact ⟨s,hs,hopen,hprinted hp,hcounter hdue⟩

end ExampleKernel.Second.Clock
