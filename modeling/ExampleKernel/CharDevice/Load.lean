import ExampleKernel.Kernel.Ladder

/-! Loading and unloading hello and the modules with nothing but a memory and character devices: globalfifo, second
and multi_globalmem, for any number of devices, while other drivers hold regions. -/
namespace ExampleKernel.CharDevice
open ExampleKernel.Foundation ExampleKernel.Kernel

inductive Resource
  | region (number : ℕ)
  | devp
  | cdev (index : ℕ)
  | devClass | device
  deriving DecidableEq, Repr

inductive KernelCall
  | registerChrdevRegion | allocChrdevRegion | kzalloc
  | cdevInit (index : ℕ) | cdevAdd (index : ℕ)
  | mutexInit | initRWait | initWWait
  | classCreate | deviceCreate
  deriving DecidableEq, Repr

open Resource KernelCall

/-- The module parameter, 0 to ask the kernel for a number, and the number that the kernel would choose. -/
structure Choice where
  major : ℕ
  chosen : ℕ

def Choice.number (c : Choice) : ℕ := if c.major ≠ 0 then c.major else c.chosen

def Choice.request (c : Choice) : KernelCall := if c.major ≠ 0 then registerChrdevRegion else allocChrdevRegion

/-- `globalfifo_major` and its like: set by the parameter or from the number of the region. -/
def major : List Resource → ℕ
  | region number::_ => number
  | _::held => major held
  | [] => 0

/-- `globalfifo_setup_cdev` and its like: a failing `cdev_add` is only printed. -/
def setupCdev (index : ℕ) : List (Rung KernelCall Resource) :=
  [⟨cdevInit index,[],.never⟩,⟨cdevAdd index,[cdev index],.ignored⟩]

def setupCdevs (indices : List ℕ) : List (Rung KernelCall Resource) := indices.flatMap setupCdev

/-- What the inits have in common. -/
def requestRegion (c : Choice) : List (Rung KernelCall Resource) :=
  [⟨c.request,[region c.number],.undo fun _ => []⟩,⟨kzalloc,[devp],.undo fun _ => [region c.number]⟩]

def secondInit (c : Choice) : List (Rung KernelCall Resource) := requestRegion c ++ setupCdevs [0]

def globalfifoInit (c : Choice) : List (Rung KernelCall Resource) :=
  requestRegion c ++ setupCdevs [0] ++ [⟨mutexInit,[],.never⟩,⟨initRWait,[],.never⟩,⟨initWWait,[],.never⟩]

/-- `globalmem_init` of multi_globalmem -/
def multiInit (deviceNum : ℕ) (c : Choice) : List (Rung KernelCall Resource) :=
  requestRegion c ++ setupCdevs (List.range deviceNum)

/-- `second_exit` and `globalfifo_exit` have one device, `globalmem_exit` of multi_globalmem has `DEVICE_NUM`. -/
def charExit (indices : List ℕ) (held : List Resource) : Result × List Resource :=
  (.ok,indices.map cdev ++ [devp,region (major held)])

def helloInit (c : Choice) : List (Rung KernelCall Resource) :=
  [⟨allocChrdevRegion,[region c.chosen],.undo fun _ => []⟩,
    ⟨classCreate,[devClass],.undo fun held => [region (major held)]⟩,
    ⟨deviceCreate,[device],.undo fun held => [devClass,region (major held)]⟩]

def helloExit (held : List Resource) : Result × List Resource := (.ok,[device,devClass,region (major held)])

/-- Regions are requested by number; the rest has no name that another driver could know. -/
def shared : Resource → Bool
  | region _ => true
  | _ => false

inductive Module
  | hello
  | globalfifo
  | second
  | multiGlobalmem (deviceNum : ℕ)

def Module.driver : Module → Driver Choice KernelCall Resource
  | .hello => ⟨helloInit,helloExit,shared⟩
  | .globalfifo => ⟨globalfifoInit,charExit [0],shared⟩
  | .second => ⟨secondInit,charExit [0],shared⟩
  | .multiGlobalmem deviceNum => ⟨multiInit deviceNum,charExit (List.range deviceNum),shared⟩

/-- The minor numbers of the devices. -/
def Module.indices : Module → List ℕ
  | .hello => []
  | .globalfifo | .second => [0]
  | .multiGlobalmem deviceNum => List.range deviceNum

section Attempts
variable (c : Choice) (ok : KernelCall → Bool)

/-- The devices that `cdev_add` has added. -/
def added (indices : List ℕ) : List Resource := (indices.filter fun i => ok (cdevAdd i)).map cdev

theorem attempt_setupCdevs (indices : List ℕ) (held : List Resource) :
    attempt ok (setupCdevs indices) held = ⟨.ok,held ++ added ok indices,[]⟩ := by
  induction indices generalizing held with
  | nil => simp [setupCdevs, attempt, added]
  | cons i indices ih =>
    have hcons : setupCdevs (i::indices) =
        ⟨cdevInit i,[],.never⟩::⟨cdevAdd i,[cdev i],.ignored⟩::setupCdevs indices := rfl
    rw [hcons]
    cases hok : ok (cdevAdd i) <;> simp [attempt, Rung.succeeds, ih, added, hok]

theorem failing_setupCdevs (indices : List ℕ) :
    failing ok (setupCdevs indices) = (indices.filter fun i => !ok (cdevAdd i)).map cdevAdd := by
  induction indices with
  | nil => rfl
  | cons i indices ih =>
    have hcons : setupCdevs (i::indices) =
        ⟨cdevInit i,[],.never⟩::⟨cdevAdd i,[cdev i],.ignored⟩::setupCdevs indices := rfl
    rw [hcons]
    cases hok : ok (cdevAdd i) <;> simp [failing, Rung.succeeds, ih, hok]

/-- What a loaded module holds besides the devices. -/
def Module.own (c : Choice) : Module → List Resource
  | .hello => [region c.chosen,devClass,device]
  | .globalfifo | .second | .multiGlobalmem _ => [region c.number,devp]

/-- How a load goes: it releases what it has acquired, and no `cdev_add` has failed; or it holds all but the devices
whose `cdev_add` failed. -/
inductive Loads (m : Module) (a : Attempt Resource) (failed : List KernelCall) : Prop
  | undone (hresult : a.result = .error) (hperm : a.released.Perm a.acquired) (hfailed : ∀ i, cdevAdd i ∉ failed)
  | loaded (ha : a = ⟨.ok,m.own c ++ added ok m.indices,[]⟩)
      (hfailed : failed = (m.indices.filter fun i => !ok (cdevAdd i)).map cdevAdd)

theorem hello_loads : Loads c ok .hello (attempt ok (helloInit c) []) (failing ok (helloInit c)) := by
  cases hregion : ok allocChrdevRegion
  · apply Loads.undone <;> simp [helloInit, attempt, failing, Rung.succeeds, hregion]
  cases hclass : ok classCreate
  · apply Loads.undone <;> simp [helloInit, attempt, failing, Rung.succeeds, hregion, hclass, major]
  cases hdevice : ok deviceCreate
  · apply Loads.undone <;>
      simp [helloInit, attempt, failing, Rung.succeeds, hregion, hclass, hdevice, major, List.Perm.swap]
  · apply Loads.loaded <;>
      simp [helloInit, attempt, failing, Rung.succeeds, hregion, hclass, hdevice, Module.own, Module.indices, added]

/-- The inits of the others, whatever they initialise at the end. -/
theorem char_loads {m : Module} (hown : m.own c = [region c.number,devp]) {rest : List (Rung KernelCall Resource)}
    (hrest : ∀ held, attempt ok rest held = ⟨.ok,held,[]⟩) (hnone : failing ok rest = []) :
    Loads c ok m (attempt ok (requestRegion c ++ setupCdevs m.indices ++ rest) [])
      (failing ok (requestRegion c ++ setupCdevs m.indices ++ rest)) := by
  rw [List.append_assoc,attempt_append,failing_append ok _ _ []]
  have hrequest : c.request ≠ kzalloc ∧ ∀ i, cdevAdd i ≠ c.request := by
    unfold Choice.request
    split_ifs <;> simp
  cases hregion : ok c.request
  · apply Loads.undone <;> simp [requestRegion, attempt, failing, Rung.succeeds, hregion, hrequest.2]
  cases hdevp : ok kzalloc
  · apply Loads.undone <;> simp [requestRegion, attempt, failing, Rung.succeeds, hregion, hdevp]
  have hheld : attempt ok (requestRegion c) [] = ⟨.ok,[region c.number,devp],[]⟩ := by
    simp [requestRegion, attempt, Rung.succeeds, hregion, hdevp]
  have hfailing : failing ok (requestRegion c) = [] := by
    simp [requestRegion, failing, Rung.succeeds, hregion, hdevp]
  rw [hheld,if_pos rfl,if_pos rfl,hfailing,List.nil_append]
  apply Loads.loaded
  · rw [attempt_append,attempt_setupCdevs,if_pos rfl,hrest,hown]
  · rw [failing_append ok _ _ [],attempt_setupCdevs,if_pos rfl,hnone,List.append_nil,failing_setupCdevs]

theorem module_loads (m : Module) :
    Loads c ok m (attempt ok (m.driver.init c) []) (failing ok (m.driver.init c)) := by
  have hnil : ∀ held, attempt ok ([] : List (Rung KernelCall Resource)) held = ⟨.ok,held,[]⟩ := fun _ => rfl
  cases m with
  | hello => exact hello_loads c ok
  | globalfifo => exact char_loads c ok rfl (fun held => by simp [attempt, Rung.succeeds]) rfl
  | second =>
    have h := char_loads (m := .second) c ok rfl hnil rfl
    rwa [List.append_nil] at h
  | multiGlobalmem deviceNum =>
    have h := char_loads (m := .multiGlobalmem deviceNum) c ok rfl hnil rfl
    rwa [List.append_nil] at h

end Attempts

section Exits
variable (m : Module) (c : Choice) (ok : KernelCall → Bool)

theorem exit_releases (l : List Resource) :
    m.driver.exit (m.own c ++ l) = (.ok,m.indices.map cdev ++ (m.own c).reverse) := by
  cases m <;> rfl

theorem mem_own_ne_cdev {x : Resource} (h : x ∈ m.own c) (i : ℕ) : x ≠ cdev i := by
  cases m <;> simp only [Module.own, List.mem_cons, List.not_mem_nil, or_false] at h <;> rintro rfl <;> simp at h

/-- The exit releases each thing once. -/
theorem released_nodup : (m.indices.map cdev ++ (m.own c).reverse).Nodup := by
  refine List.Nodup.append (List.Nodup.map (fun i j h => by cases h; rfl) ?_) (List.nodup_reverse.mpr ?_) ?_
  · cases m <;> simp [Module.indices, List.nodup_range]
  · cases m <;> simp [Module.own]
  · intro x hx hown
    obtain ⟨i,-,rfl⟩ := List.mem_map.mp hx
    exact mem_own_ne_cdev m c (List.mem_reverse.mp hown) i rfl

theorem held_nodup : (m.own c ++ added ok m.indices).Nodup := by
  refine List.Nodup.sublist ?_ (List.Perm.nodup (List.perm_append_comm.trans ((List.reverse_perm _).append_right _))
    (released_nodup m c))
  exact List.Sublist.append_left ((List.filter_sublist).map _) _

theorem cdev_held_iff {i : ℕ} : cdev i ∈ m.own c ++ added ok m.indices ↔ i ∈ m.indices ∧ ok (cdevAdd i) = true := by
  rw [List.mem_append,or_iff_right fun hown => mem_own_ne_cdev m c hown i rfl]
  simp [added]

/-- Nothing stays behind, and only a device that was never added is released without being held. -/
theorem exit_accounts :
    let a := Attempt.mk .ok (m.own c ++ added ok m.indices) (m.driver.exit (m.own c ++ added ok m.indices)).2
    a.leaks = [] ∧ ∀ x, x ∈ a.strays ↔ ∃ i ∈ m.indices, ok (cdevAdd i) = false ∧ x = cdev i := by
  rw [exit_releases]
  constructor
  · apply List.eq_nil_iff_forall_not_mem.mpr
    intro x hx
    obtain ⟨hheld,hnot⟩ := (held_nodup m c ok).mem_sdiff_iff.mp hx
    apply hnot
    obtain hown | hadded := List.mem_append.mp hheld
    · exact List.mem_append_right _ (List.mem_reverse.mpr hown)
    · exact List.mem_append_left _ (((List.filter_sublist).map _).subset hadded)
  · intro x
    refine (released_nodup m c).mem_sdiff_iff.trans ?_
    constructor
    · rintro ⟨hx,hnot⟩
      obtain hx | hx := List.mem_append.mp hx
      · obtain ⟨i,hi,rfl⟩ := List.mem_map.mp hx
        exact ⟨i,hi,Bool.eq_false_iff.mpr fun hok => hnot ((cdev_held_iff m c ok).mpr ⟨hi,hok⟩),rfl⟩
      · exact absurd (List.mem_append_left _ (List.mem_reverse.mp hx)) hnot
    · rintro ⟨i,hi,hok,rfl⟩
      refine ⟨List.mem_append_left _ (List.mem_map_of_mem hi),fun hheld => ?_⟩
      exact Bool.eq_false_iff.mp hok ((cdev_held_iff m c ok).mp hheld).2

end Exits

/-- No `cdev_add` fails. -/
def EveryCdevAdded (m : Module) : LoadAct Choice KernelCall Resource → Prop
  | .load c ok => ∀ i, cdevAdd i ∉ failing ok (m.driver.init c)
  | _ => True

/-- Every device is there. -/
def Module.Complete (m : Module) (held : List Resource) : Prop := ∀ i ∈ m.indices, cdev i ∈ held

theorem loaded_of_ok {m : Module} {c : Choice} {ok : KernelCall → Bool}
    (h : (attempt ok (m.driver.init c) []).result = .ok) :
    attempt ok (m.driver.init c) [] = ⟨.ok,m.own c ++ added ok m.indices,[]⟩ := by
  cases module_loads c ok m with
  | undone hresult => rw [hresult] at h; cases h
  | loaded ha => exact ha

theorem complete_iff (m : Module) (c : Choice) (ok : KernelCall → Bool) :
    m.Complete (m.own c ++ added ok m.indices) ↔ ∀ i ∈ m.indices, ok (cdevAdd i) = true :=
  forall₂_congr fun _ hi => (cdev_held_iff m c ok).trans (and_iff_right hi)

/-- A load is complete and makes no stray release exactly when no `cdev_add` fails. -/
theorem loads_complete_iff (m : Module) (w : World Resource) (c : Choice) (ok : KernelCall → Bool) :
    m.driver.Loads m.Complete (fun _ => true) w (.load c ok) ↔ EveryCdevAdded m (.load c ok) := by
  show (attempt ok (m.driver.init c) []).Clean m.Complete ∧
    (∀ x ∈ (attempt ok (m.driver.init c) []).strays, true = false) ↔ ∀ i, cdevAdd i ∉ failing ok (m.driver.init c)
  cases module_loads c ok m with
  | undone hresult hperm hfailed =>
    obtain ⟨hleaks,hstrays⟩ := exact_of_perm hperm
    refine iff_of_true ⟨by simp only [Attempt.Clean, hresult, hleaks],?_⟩ hfailed
    rw [hstrays]
    exact List.forall_mem_nil _
  | loaded ha hfailed =>
    rw [ha,hfailed]
    have hnone : (Attempt.mk .ok (m.own c ++ added ok m.indices) []).strays = [] := List.nil_diff _
    rw [hnone,and_iff_left (List.forall_mem_nil _)]
    refine (complete_iff m c ok).trans ?_
    simp

/-- Whatever calls fail, over any number of loads and unloads a module that is not loaded holds nothing, and no
region of another driver is released, whichever number is asked for. A loaded module has all its devices, and
nothing at all is released that it does not hold, exactly as long as no `cdev_add` fails. -/
theorem leaves_nothing {m : Module} {acts : List (LoadAct Choice KernelCall Resource)} {w : World Resource}
    (h : run m.driver.step World.start acts = some w) :
    (w.Settled (fun _ => True) ∧ w.Considerate) ∧
    (Always m.driver.step (fun w => w.Settled m.Complete ∧ w.stray = []) World.start acts ↔
      Meets m.driver.step (fun _ => EveryCdevAdded m) World.start acts) := by
  constructor
  · refine settled_of_clean (fun c ok => ?_) (fun c ok hok => ?_) h
    · cases module_loads c ok m with
      | undone hresult hperm =>
        obtain ⟨hleaks,hstrays⟩ := exact_of_perm hperm
        exact ⟨by simp only [Attempt.Clean, hresult, hleaks],hstrays⟩
      | loaded ha =>
        rw [ha]
        exact ⟨trivial,List.nil_diff _⟩
    · rw [loaded_of_ok hok]
      obtain ⟨hleaks,hstrays⟩ := exit_accounts m c ok
      refine ⟨by rw [exit_releases],hleaks,fun x hx => ?_⟩
      obtain ⟨i,-,-,rfl⟩ := (hstrays x).mp hx
      cases m <;> rfl
  · have hstray : (fun w : World Resource => w.Settled m.Complete ∧ w.stray = []) =
        fun w => w.Settled m.Complete ∧ ∀ p ∈ w.stray, (fun _ => true) p = false := by
      funext w
      simp [List.eq_nil_iff_forall_not_mem]
    rw [hstray,always_settled_iff (fun c ok hok hK => ?_) h]
    · refine meets_congr (I := fun _ => True) (fun _ _ _ _ _ => trivial) (fun w a _ => ?_) trivial acts
      cases a with
      | load c ok => exact loads_complete_iff m w c ok
      | _ => exact Iff.rfl
    · rw [loaded_of_ok hok] at hK ⊢
      obtain ⟨hleaks,hstrays⟩ := exit_accounts m c ok
      refine ⟨by rw [exit_releases],hleaks,List.eq_nil_iff_forall_not_mem.mpr fun x hx => ?_⟩
      obtain ⟨i,hi,hfailed,rfl⟩ := (hstrays x).mp hx
      exact Bool.eq_false_iff.mp hfailed ((complete_iff m c ok).mp hK i hi)

/-- Ten devices: memory fails, another driver takes the number, the kernel chooses another one; then the third
device is not added. -/
def reloads : List (LoadAct Choice KernelCall Resource) :=
  [.load ⟨230,250⟩ fun c => c ≠ kzalloc,.request (region 230),.load ⟨230,250⟩ fun c => c ≠ registerChrdevRegion,
    .load ⟨0,250⟩ fun _ => true,.unload,.load ⟨0,250⟩ fun c => c ≠ cdevAdd 2,.unload]

theorem leaves_nothing_reloads : ∃ w, run (Module.multiGlobalmem 10).driver.step World.start reloads = some w ∧
    w.stray = [(cdev 2,false)] ∧ w.others (region 230) = true ∧ w.Settled (fun _ => True) ∧ w.Considerate := by
  obtain ⟨w,hw,hp⟩ := exists_of_run_any (Module.multiGlobalmem 10).driver.step World.start reloads
    (fun w => w.stray = [(cdev 2,false)] ∧ w.others (region 230) = true) (by decide +kernel)
  obtain ⟨hstray,hothers⟩ := of_decide_eq_true hp
  exact ⟨w,hw,hstray,hothers,(leaves_nothing hw).1⟩

end ExampleKernel.CharDevice
