import ExampleKernel.GlobalMem.Device

/-! multi_globalmem: ten devices, laid out one behind the other in a single allocation. Each of
them behaves as the device of globalmem would on its own. -/
namespace ExampleKernel.GlobalMem.Multi
open ExampleKernel.Foundation ExampleKernel.Kernel

def deviceNum : ℕ := 10
def memClear : UInt32 := 0x1

/-- Where `kzalloc` put the array, and how `struct globalmem_dev` is laid out. `GLOBALMEM_SIZE`
is the same in both drivers. -/
structure Layout where
  globalmemDevp : ℕ
  cdevOff : ℕ
  memOff : ℕ
  sizeofDev : ℕ
  fits : memOff+globalmemSize ≤ sizeofDev

/-- `globalmem_devp + i`. -/
def Layout.dev (L : Layout) (i : ℕ) : ℕ := L.globalmemDevp+i*L.sizeofDev

/-- `&(globalmem_devp + i)->cdev`, which `cdev_add` binds to minor `i`. -/
def Layout.cdev (L : Layout) (i : ℕ) : ℕ := L.dev i+L.cdevOff

/-- `dev->mem`. -/
def Layout.mem (L : Layout) (dev : ℕ) : ℕ := dev+L.memOff

/-- The bytes of `dev->mem`. -/
def Layout.Owns (L : Layout) (dev a : ℕ) : Prop := L.mem dev ≤ a ∧ a < L.mem dev+globalmemSize

/-- `container_of(inode->i_cdev, struct globalmem_dev, cdev)`, the new `filp->private_data`. -/
def globalmemOpen (L : Layout) (iCdev : ℕ) : ℕ := iCdev-L.cdevOff

def globalmemIoctl (L : Layout) (mem : ℕ → UInt8) (dev : ℕ) (cmd : UInt32) : (ℕ → UInt8) × ℤ :=
  if cmd = memClear then (blit mem (L.mem dev) globalmemSize fun _ => 0,0) else (mem,-einval)

def globalmemRead (w : ℕ) (L : Layout) (mem : ℕ → UInt8) (dev size : ℕ) (ppos : ℤ) (copy : UserCopy) :
    IoResult :=
  let p := unsignedLong w ppos
  if p ≥ globalmemSize then ⟨0,ppos,[]⟩
  else
    let count := clampCount (unsignedInt size) p
    match copy with
    | .fault k _ =>
      if k < count then ⟨-efault,ppos,slice mem (L.mem dev+p) k⟩
      else ⟨intOf count,loffT (ppos+count),slice mem (L.mem dev+p) count⟩
    | .done => ⟨intOf count,loffT (ppos+count),slice mem (L.mem dev+p) count⟩

def globalmemWrite (w : ℕ) (L : Layout) (mem : ℕ → UInt8) (dev size : ℕ) (buf : ℕ → UInt8) (ppos : ℤ)
    (copy : UserCopy) : (ℕ → UInt8) × IoResult :=
  let p := unsignedLong w ppos
  if p ≥ globalmemSize then (mem,⟨0,ppos,[]⟩)
  else
    let count := clampCount (unsignedInt size) p
    match copy with
    | .fault k zeroed =>
      if k < count then (copyFromUserFault mem (L.mem dev+p) count k buf zeroed,⟨-efault,ppos,[]⟩)
      else (blit mem (L.mem dev+p) count buf,⟨intOf count,loffT (ppos+count),[]⟩)
    | .done => (blit mem (L.mem dev+p) count buf,⟨intOf count,loffT (ppos+count),[]⟩)

/-- The new `f_pos` and the return value. -/
def globalmemLlseek (fpos offset orig : ℤ) : ℤ × ℤ :=
  if orig = 0 then
    if offset < 0 then (fpos,-einval)
    else if unsignedInt offset > globalmemSize then (fpos,-einval)
    else (unsignedInt offset,unsignedInt offset)
  else if orig = 1 then
    if loffT (fpos+offset) > globalmemSize then (fpos,-einval)
    else if loffT (fpos+offset) < 0 then (fpos,-einval)
    else (loffT (fpos+offset),loffT (fpos+offset))
  else (fpos,-einval)

/-- A call through an open file; `pread` and `pwrite` bring their own position. -/
inductive Op
  | read (size : ℕ) (copy : UserCopy)
  | pread (pos : ℤ) (size : ℕ) (copy : UserCopy)
  | write (size : ℕ) (buf : ℕ → UInt8) (copy : UserCopy)
  | pwrite (pos : ℤ) (size : ℕ) (buf : ℕ → UInt8) (copy : UserCopy)
  | llseek (offset orig : ℤ)
  | memClear

inductive Call
  | open (f : FileId) (minor : Fin deviceNum)
  | release (f : FileId)
  | io (f : FileId) (op : Op)

/-- The memory, the file position and the result that a call leaves. -/
structure Effect (μ : Type) where
  mem : μ
  fPos : ℤ
  out : Out

/-- A call through a file at position `pos` whose `private_data` is `dev`. -/
def perform (w : ℕ) (L : Layout) (mem : ℕ → UInt8) (dev : ℕ) (pos : ℤ) : Op → Effect (ℕ → UInt8)
  | .read size copy => let r := globalmemRead w L mem dev size pos copy; ⟨mem,r.ppos,⟨r.ret,r.bytes⟩⟩
  | .pread at' size copy => let r := globalmemRead w L mem dev size at' copy; ⟨mem,pos,⟨r.ret,r.bytes⟩⟩
  | .write size buf copy =>
    let r := globalmemWrite w L mem dev size buf pos copy; ⟨r.1,r.2.ppos,⟨r.2.ret,r.2.bytes⟩⟩
  | .pwrite at' size buf copy =>
    let r := globalmemWrite w L mem dev size buf at' copy; ⟨r.1,pos,⟨r.2.ret,r.2.bytes⟩⟩
  | .llseek offset orig => let r := globalmemLlseek pos offset orig; ⟨mem,r.1,⟨r.2,[]⟩⟩
  | .memClear => let r := globalmemIoctl L mem dev Multi.memClear; ⟨r.1,pos,⟨r.2,[]⟩⟩

structure File where
  privateData : ℕ
  fPos : ℤ

/-- All of the kernel's memory, and the open files. `outs` lists what the calls returned, beside
the device that each of them went to. -/
structure State where
  mem : ℕ → UInt8
  files : FileId → Option File
  outs : List (ℕ × Out)

def step (w : ℕ) (L : Layout) (s : State) : Call → Option State
  | .open f minor =>
    let dev := globalmemOpen L (L.cdev minor)
    if (s.files f).isNone then
      some ⟨s.mem,Function.update s.files f (some ⟨dev,0⟩),s.outs ++ [(dev,⟨0,[]⟩)]⟩
    else none
  | .release f => (s.files f).map fun x =>
      ⟨s.mem,Function.update s.files f none,s.outs ++ [(x.privateData,⟨0,[]⟩)]⟩
  | .io f op => (s.files f).map fun x =>
      let e := perform w L s.mem x.privateData x.fPos op
      ⟨e.mem,Function.update s.files f (some {x with fPos := e.fPos}),s.outs ++ [(x.privateData,e.out)]⟩

/-- The device that a call goes to. -/
def device (L : Layout) (s : State) : Call → Option ℕ
  | .open _ minor => some (L.dev minor)
  | .release f => (s.files f).map File.privateData
  | .io f _ => (s.files f).map File.privateData

/-- After `globalmem_init` the arrays are zero; what the rest of the memory holds is arbitrary. -/
def globalmemInit (L : Layout) (rest : ℕ → UInt8) : State where
  mem a := if ∃ k < deviceNum, L.mem (L.dev k) ≤ a ∧ a < L.mem (L.dev k)+globalmemSize then 0 else rest a
  files _ := none
  outs := []

/-- The same calls on the single device of globalmem. -/
def onGlobalmem (w : ℕ) (t : Sys) : Call → Option Sys
  | .open f _ => GlobalMem.step w t (.open f)
  | .release f => GlobalMem.step w t (.release f 0)
  | .io f (.read size copy) => GlobalMem.step w t (.read f size copy)
  | .io f (.write size buf copy) => GlobalMem.step w t (.write f size buf copy)
  | .io f (.llseek offset orig) => GlobalMem.step w t (.llseek f offset orig)
  | .io f .memClear => GlobalMem.step w t (.ioctl f GlobalMem.memClear 0)
  | .io f (.pread pos size copy) => (t.fpos f).map fun _ =>
      let r := GlobalMem.globalmemRead w t.g size pos copy
      ⟨r.1,t.fpos,t.outs ++ [⟨r.2.ret,r.2.bytes⟩]⟩
  | .io f (.pwrite pos size buf copy) => (t.fpos f).map fun _ =>
      let r := GlobalMem.globalmemWrite w t.g size buf pos copy
      ⟨r.1,t.fpos,t.outs ++ [⟨r.2.ret,r.2.bytes⟩]⟩

/-- The effect of a call on the single device. -/
def performOn (w : ℕ) (g : Globalmem) (pos : ℤ) : Op → Effect Globalmem
  | .read size copy => let r := GlobalMem.globalmemRead w g size pos copy; ⟨r.1,r.2.ppos,⟨r.2.ret,r.2.bytes⟩⟩
  | .pread at' size copy => let r := GlobalMem.globalmemRead w g size at' copy; ⟨r.1,pos,⟨r.2.ret,r.2.bytes⟩⟩
  | .write size buf copy =>
    let r := GlobalMem.globalmemWrite w g size buf pos copy; ⟨r.1,r.2.ppos,⟨r.2.ret,r.2.bytes⟩⟩
  | .pwrite at' size buf copy =>
    let r := GlobalMem.globalmemWrite w g size buf at' copy; ⟨r.1,pos,⟨r.2.ret,r.2.bytes⟩⟩
  | .llseek offset orig => let r := GlobalMem.globalmemLlseek pos offset orig; ⟨g,r.1,⟨r.2,[]⟩⟩
  | .memClear => let r := GlobalMem.globalmemIoctl g GlobalMem.memClear 0; ⟨r.1,pos,⟨r.2,[]⟩⟩

theorem onGlobalmem_io (w : ℕ) (t : Sys) (f : FileId) (op : Op) :
    onGlobalmem w t (.io f op) = (t.fpos f).map fun pos =>
      ⟨(performOn w t.g pos op).mem,Function.update t.fpos f (some (performOn w t.g pos op).fPos),
        t.outs ++ [(performOn w t.g pos op).out]⟩ := by
  have hkeep : ∀ pos, t.fpos f = some pos → Function.update t.fpos f (some pos) = t.fpos :=
    fun pos h => by rw [← h,Function.update_eq_self]
  cases hf : t.fpos f with
  | none => cases op <;> simp [onGlobalmem, GlobalMem.step, hf]
  | some pos =>
    cases op <;> simp [onGlobalmem, GlobalMem.step, Sys.finish, performOn, hf, hkeep pos hf]

section Window

variable {L : Layout} {dev : ℕ}

/-- `dev->mem` holds what the array of the single device holds. -/
def Agrees (L : Layout) (dev : ℕ) (mem m : ℕ → UInt8) : Prop :=
  ∀ i, i < globalmemSize → mem (L.mem dev+i) = m i

theorem Agrees.slice {mem m : ℕ → UInt8} (h : Agrees L dev mem m) {p n : ℕ} (hn : p+n ≤ globalmemSize) :
    slice mem (L.mem dev+p) n = slice m p n := by
  apply slice_congr
  intro i hi
  rw [Nat.add_assoc]
  exact h (p+i) (by omega)

theorem Agrees.blit {mem m : ℕ → UInt8} (h : Agrees L dev mem m) (p n : ℕ) (src : ℕ → UInt8) :
    Agrees L dev (blit mem (L.mem dev+p) n src) (blit m p n src) := by
  intro i hi
  have hin : L.mem dev+p ≤ L.mem dev+i ∧ L.mem dev+i < L.mem dev+p+n ↔ p ≤ i ∧ i < p+n := by omega
  have hsub : L.mem dev+i-(L.mem dev+p) = i-p := by omega
  simp only [Foundation.blit, hin, hsub, h i hi]

theorem Agrees.fault {mem m : ℕ → UInt8} (h : Agrees L dev mem m) (p n k : ℕ) (src : ℕ → UInt8)
    (zeroed : Bool) : Agrees L dev (copyFromUserFault mem (L.mem dev+p) n k src zeroed)
      (copyFromUserFault m p n k src zeroed) := by
  unfold copyFromUserFault
  split_ifs
  · rw [Nat.add_assoc]
    exact (h.blit p k src).blit (p+k) (n-k) _
  · exact h.blit p k src

theorem blit_notOwns {mem src : ℕ → UInt8} {p n a : ℕ} (hn : p+n ≤ globalmemSize)
    (ha : ¬ L.Owns dev a) : Foundation.blit mem (L.mem dev+p) n src a = mem a := by
  unfold Layout.Owns at ha
  exact blit_outside _ _ _ _ (by omega)

end Window

/-- A read through `dev` sees the array of `dev` only. -/
theorem globalmemRead_agrees {L : Layout} {mem : ℕ → UInt8} {dev : ℕ} {g : Globalmem}
    (h : Agrees L dev mem g.mem) (w size : ℕ) (ppos : ℤ) (copy : UserCopy) :
    globalmemRead w L mem dev size ppos copy = (GlobalMem.globalmemRead w g size ppos copy).2 ∧
      (GlobalMem.globalmemRead w g size ppos copy).1.mem = g.mem := by
  unfold globalmemRead GlobalMem.globalmemRead
  by_cases hp : unsignedLong w ppos ≥ globalmemSize
  · simp [hp]
  · have hclamp := clampCount_le (unsignedInt size) (Nat.lt_of_not_le hp)
    simp only [hp, if_false]
    cases copy with
    | done => exact ⟨by rw [h.slice hclamp],rfl⟩
    | fault k zeroed =>
      dsimp only
      split_ifs with hk
      · exact ⟨by rw [h.slice (by omega)],rfl⟩
      · exact ⟨by rw [h.slice hclamp],rfl⟩

/-- A write through `dev` does to the array of `dev` what the single device does to its own. -/
theorem globalmemWrite_agrees {L : Layout} {mem : ℕ → UInt8} {dev : ℕ} {g : Globalmem}
    (h : Agrees L dev mem g.mem) (w size : ℕ) (buf : ℕ → UInt8) (ppos : ℤ) (copy : UserCopy) :
    (globalmemWrite w L mem dev size buf ppos copy).2 = (GlobalMem.globalmemWrite w g size buf ppos copy).2 ∧
      Agrees L dev (globalmemWrite w L mem dev size buf ppos copy).1
        (GlobalMem.globalmemWrite w g size buf ppos copy).1.mem := by
  unfold globalmemWrite GlobalMem.globalmemWrite
  by_cases hp : unsignedLong w ppos ≥ globalmemSize
  · simpa [hp] using h
  · simp only [hp, if_false]
    cases copy with
    | done => exact ⟨rfl,h.blit _ _ _⟩
    | fault k zeroed =>
      dsimp only
      split_ifs with hk
      · exact ⟨rfl,h.fault _ _ _ _ _⟩
      · exact ⟨rfl,h.blit _ _ _⟩

theorem globalmemWrite_frame {L : Layout} {mem : ℕ → UInt8} {dev a : ℕ} (ha : ¬ L.Owns dev a)
    (w size : ℕ) (buf : ℕ → UInt8) (ppos : ℤ) (copy : UserCopy) :
    (globalmemWrite w L mem dev size buf ppos copy).1 a = mem a := by
  unfold globalmemWrite
  by_cases hp : unsignedLong w ppos ≥ globalmemSize
  · simp [hp]
  · have hclamp := clampCount_le (unsignedInt size) (Nat.lt_of_not_le hp)
    simp only [hp, if_false]
    cases copy with
    | done => exact blit_notOwns hclamp ha
    | fault k zeroed =>
      dsimp only
      split_ifs with hk
      · unfold Layout.Owns at ha
        exact copyFromUserFault_outside _ _ _ hk.le (by omega)
      · exact blit_notOwns hclamp ha

/-- The single device, as one that lies at the start of a memory of its own. -/
def flat : Layout := ⟨0,0,0,globalmemSize,le_of_eq (Nat.zero_add _)⟩

theorem flat_mem (p : ℕ) : flat.mem 0+p = p := Nat.zero_add p

theorem globalmemRead_flat (w : ℕ) (g : Globalmem) (size : ℕ) (ppos : ℤ) (copy : UserCopy) :
    (GlobalMem.globalmemRead w g size ppos copy).2 = globalmemRead w flat g.mem 0 size ppos copy :=
  (globalmemRead_agrees (fun i _ => congrArg g.mem (flat_mem i)) w size ppos copy).1.symm

theorem globalmemWrite_flat (w : ℕ) (g : Globalmem) (size : ℕ) (buf : ℕ → UInt8) (ppos : ℤ) (copy : UserCopy) :
    GlobalMem.globalmemWrite w g size buf ppos copy =
      ({g with mem := (globalmemWrite w flat g.mem 0 size buf ppos copy).1},
        (globalmemWrite w flat g.mem 0 size buf ppos copy).2) := by
  unfold globalmemWrite GlobalMem.globalmemWrite
  by_cases hp : unsignedLong w ppos ≥ globalmemSize
  · simp only [hp, if_true]
  · simp only [hp, if_false, flat_mem]
    cases copy with
    | done => rfl
    | fault k zeroed =>
      dsimp only
      split_ifs <;> rfl

/-- A call has the same effect on the array of its device as on the single device. -/
theorem perform_agrees {L : Layout} {mem : ℕ → UInt8} {dev : ℕ} {g : Globalmem}
    (h : Agrees L dev mem g.mem) (w : ℕ) (pos : ℤ) (op : Op) :
    (perform w L mem dev pos op).fPos = (performOn w g pos op).fPos ∧
      (perform w L mem dev pos op).out = (performOn w g pos op).out ∧
      Agrees L dev (perform w L mem dev pos op).mem (performOn w g pos op).mem.mem := by
  cases op with
  | read size copy =>
    obtain ⟨hr,hm⟩ := globalmemRead_agrees h w size pos copy
    simp only [perform, performOn, hr, hm, true_and]
    exact h
  | pread at' size copy =>
    obtain ⟨hr,hm⟩ := globalmemRead_agrees h w size at' copy
    simp only [perform, performOn, hr, hm, true_and]
    exact h
  | write size buf copy =>
    obtain ⟨hr,hm⟩ := globalmemWrite_agrees h w size buf pos copy
    simp only [perform, performOn, hr, true_and]
    exact hm
  | pwrite at' size buf copy =>
    obtain ⟨hr,hm⟩ := globalmemWrite_agrees h w size buf at' copy
    simp only [perform, performOn, hr, true_and]
    exact hm
  | llseek offset orig => exact ⟨rfl,rfl,h⟩
  | memClear => exact ⟨rfl,rfl,h.blit 0 globalmemSize fun _ => 0⟩

/-- No call writes outside the array of its device. -/
theorem perform_frame {L : Layout} {mem : ℕ → UInt8} {dev a : ℕ} (ha : ¬ L.Owns dev a) (w : ℕ) (pos : ℤ)
    (op : Op) : (perform w L mem dev pos op).mem a = mem a := by
  cases op with
  | read | pread | llseek => rfl
  | write size buf copy => exact globalmemWrite_frame ha w size buf pos copy
  | pwrite at' size buf copy => exact globalmemWrite_frame ha w size buf at' copy
  | memClear =>
    unfold Layout.Owns at ha
    exact blit_outside mem (L.mem dev) globalmemSize (fun _ => 0) (by omega)

/-- The position of a file if it is open on the device `dev`. -/
def posOn (dev : ℕ) (x : Option File) : Option ℤ := (x.filter fun x => x.privateData = dev).map File.fPos

@[simp] theorem posOn_none (dev : ℕ) : posOn dev none = none := rfl

theorem posOn_eq {dev d : ℕ} {pos : ℤ} (h : d = dev) : posOn dev (some ⟨d,pos⟩) = some pos := by
  simp [posOn, h]

theorem posOn_ne {dev d : ℕ} (pos : ℤ) (h : d ≠ dev) : posOn dev (some ⟨d,pos⟩) = none := by
  simp [posOn, h]

theorem posOn_update {fpos : FileId → Option ℤ} {files : FileId → Option File} {dev : ℕ}
    (h : ∀ f, fpos f = posOn dev (files f)) (f : FileId) (x : Option File) (f' : FileId) :
    Function.update fpos f (posOn dev x) f' = posOn dev (Function.update files f x f') := by
  by_cases hf : f' = f
  · subst hf; simp
  · simp only [Function.update_of_ne hf, h f']

/-- Every open file is bound to one of the devices. -/
def Bound (L : Layout) (files : FileId → Option File) : Prop :=
  ∀ f x, files f = some x → ∃ j, j < deviceNum ∧ x.privateData = L.dev j

theorem Bound.update {L : Layout} {files : FileId → Option File} (h : Bound L files) (f : FileId)
    {x : Option File} (hx : ∀ y, x = some y → ∃ j, j < deviceNum ∧ y.privateData = L.dev j) :
    Bound L (Function.update files f x) := by
  intro f' y hy
  by_cases hf : f' = f
  · subst hf
    exact hx y (by simpa using hy)
  · rw [Function.update_of_ne hf] at hy
    exact h f' y hy

/-- Component `k` of the state, seen as the single device. -/
structure Sim (L : Layout) (k : ℕ) (s : State) (t : Sys) : Prop where
  mem : Agrees L (L.dev k) s.mem t.g.mem
  fpos : ∀ f, t.fpos f = posOn (L.dev k) (s.files f)
  outs : t.outs = (s.outs.filter fun o => o.1 = L.dev k).map Prod.snd
  bound : Bound L s.files

theorem container_of (L : Layout) (i : ℕ) : globalmemOpen L (L.cdev i) = L.dev i := by
  simp [globalmemOpen, Layout.cdev]

/-- Different devices have disjoint arrays. -/
theorem not_owns_of_ne {L : Layout} {i j a : ℕ} (hij : L.dev i ≠ L.dev j) (ha : L.Owns (L.dev i) a) :
    ¬ L.Owns (L.dev j) a := by
  have hfits := L.fits
  unfold Layout.Owns Layout.mem at *
  unfold Layout.dev at *
  obtain hlt | rfl | hlt := lt_trichotomy i j
  · have := Nat.mul_le_mul_right L.sizeofDev (Nat.succ_le_of_lt hlt)
    rw [Nat.succ_mul] at this
    omega
  · exact absurd rfl hij
  · have := Nat.mul_le_mul_right L.sizeofDev (Nat.succ_le_of_lt hlt)
    rw [Nat.succ_mul] at this
    omega

theorem Agrees.frame {L : Layout} {dev : ℕ} {mem mem' m : ℕ → UInt8} (h : Agrees L dev mem m)
    (hkeep : ∀ a, L.Owns dev a → mem' a = mem a) : Agrees L dev mem' m := by
  intro i hi
  rw [hkeep _ ⟨by omega,by omega⟩]
  exact h i hi

/-- A call through a file of device `k` is the same call on the single device. -/
theorem step_own {w k : ℕ} {L : Layout} {s s' : State} {t : Sys} {c : Call}
    (hc : device L s c = some (L.dev k)) (hR : Sim L k s t) (h : step w L s c = some s') :
    ∃ t', onGlobalmem w t c = some t' ∧ Sim L k s' t' := by
  obtain ⟨hmem,hfpos,houts,hbound⟩ := hR
  cases c with
  | «open» f minor =>
    simp only [device, Option.some.injEq] at hc
    simp only [step, container_of, Option.isNone_iff_eq_none, Option.ite_none_right_eq_some,
      Option.some.injEq] at h
    obtain ⟨hf,rfl⟩ := h
    have hnone : t.fpos f = none := by rw [hfpos f,hf]; rfl
    refine ⟨⟨t.g,Function.update t.fpos f (some 0),t.outs ++ [⟨0,[]⟩]⟩,by simp [onGlobalmem, GlobalMem.step, hnone],
      hmem,fun f' => ?_,by simp [houts, hc],hbound.update f ?_⟩
    · rw [← posOn_update hfpos f (some ⟨L.dev minor,0⟩) f',posOn_eq hc]
    · rintro y ⟨⟩
      exact ⟨minor,minor.isLt,rfl⟩
  | release f =>
    simp only [device, Option.map_eq_some_iff] at hc
    obtain ⟨x,hx,hk⟩ := hc
    simp only [step, hx, Option.map_some, Option.some.injEq] at h
    subst h
    have hpos : t.fpos f = some x.fPos := by rw [hfpos f,hx,posOn_eq hk]
    refine ⟨⟨globalmemRelease t.g 0,Function.update t.fpos f none,t.outs ++ [⟨0,[]⟩]⟩,
      by simp [onGlobalmem, GlobalMem.step, hpos],?_,posOn_update hfpos f none,by simp [houts, hk],
      hbound.update f (by simp)⟩
    unfold globalmemRelease
    split_ifs <;> exact hmem
  | io f op =>
    simp only [device, Option.map_eq_some_iff] at hc
    obtain ⟨x,hx,hk⟩ := hc
    simp only [step, hx, Option.map_some, Option.some.injEq] at h
    subst h
    have hpos : t.fpos f = some x.fPos := by rw [hfpos f,hx,posOn_eq hk]
    obtain ⟨hep,heo,hem⟩ := perform_agrees (hk ▸ hmem) w x.fPos op
    refine ⟨⟨(performOn w t.g x.fPos op).mem,Function.update t.fpos f (some (performOn w t.g x.fPos op).fPos),
      t.outs ++ [(performOn w t.g x.fPos op).out]⟩,by rw [onGlobalmem_io,hpos]; rfl,hk ▸ hem,fun f' => ?_,
      by simp [houts, ← heo, hk],hbound.update f ?_⟩
    · rw [← posOn_update hfpos f _ f',posOn_eq hk,hep]
    · rintro y ⟨⟩
      exact hbound f x hx

/-- A call through a file of another device leaves component `k` alone. -/
theorem step_other {w k : ℕ} {L : Layout} {s s' : State} {t : Sys} {c : Call}
    (hc : device L s c ≠ some (L.dev k)) (hR : Sim L k s t) (h : step w L s c = some s') : Sim L k s' t := by
  obtain ⟨hmem,hfpos,houts,hbound⟩ := hR
  cases c with
  | «open» f minor =>
    have hne : L.dev minor ≠ L.dev k := by simpa [device] using hc
    simp only [step, container_of, Option.isNone_iff_eq_none, Option.ite_none_right_eq_some,
      Option.some.injEq] at h
    obtain ⟨hf,rfl⟩ := h
    refine ⟨hmem,fun f' => ?_,by simp [houts, hne],hbound.update f ?_⟩
    · rw [← posOn_update hfpos,posOn_ne _ hne,← posOn_none (L.dev k),← hf,← hfpos f,Function.update_eq_self]
    · rintro y ⟨⟩
      exact ⟨minor,minor.isLt,rfl⟩
  | release f =>
    simp only [step, Option.map_eq_some_iff] at h
    obtain ⟨x,hx,rfl⟩ := h
    have hne : x.privateData ≠ L.dev k := by simpa [device, hx] using hc
    refine ⟨hmem,fun f' => ?_,by simp [houts, hne],hbound.update f (by simp)⟩
    rw [← posOn_update hfpos,posOn_none,← posOn_ne x.fPos hne,← hx,← hfpos f,Function.update_eq_self]
  | io f op =>
    simp only [step, Option.map_eq_some_iff] at h
    obtain ⟨x,hx,rfl⟩ := h
    have hne : x.privateData ≠ L.dev k := by simpa [device, hx] using hc
    obtain ⟨j,hj,hxj⟩ := hbound f x hx
    refine ⟨hmem.frame fun a ha => ?_,fun f' => ?_,by simp [houts, hne],hbound.update f ?_⟩
    · exact perform_frame (hxj ▸ not_owns_of_ne (hxj ▸ hne).symm ha) w x.fPos op
    · rw [← posOn_update hfpos,posOn_ne _ hne,← posOn_ne x.fPos hne,← hx,← hfpos f,Function.update_eq_self]
    · rintro y ⟨⟩
      exact ⟨j,hj,hxj⟩

theorem sim_init {L : Layout} {rest : ℕ → UInt8} {k : ℕ} (hk : k < deviceNum) :
    Sim L k (globalmemInit L rest) load := by
  refine ⟨fun i hi => if_pos ⟨k,hk,by omega,by omega⟩,fun f => rfl,rfl,fun f x hx => ?_⟩
  cases hx

/-- A call leaves every byte outside the array of `dev` as it is, and what it does depends on no
such byte: over any other contents `m` it returns the same and leaves the same array. -/
structure Confined (w : ℕ) (L : Layout) (dev : ℕ) (s s' : State) (c : Call) : Prop where
  writes : ∀ a, ¬ L.Owns dev a → s'.mem a = s.mem a
  reads : ∀ m, (∀ a, L.Owns dev a → m a = s.mem a) → ∃ u, step w L {s with mem := m} c = some u ∧
    u.files = s'.files ∧ u.outs = s'.outs ∧ (∀ a, L.Owns dev a → u.mem a = s'.mem a) ∧
    ∀ a, ¬ L.Owns dev a → u.mem a = m a

theorem perform_reads {w dev : ℕ} {L : Layout} {mem m : ℕ → UInt8} (h : ∀ a, L.Owns dev a → m a = mem a)
    (pos : ℤ) (op : Op) : (perform w L m dev pos op).fPos = (perform w L mem dev pos op).fPos ∧
      (perform w L m dev pos op).out = (perform w L mem dev pos op).out ∧
      ∀ a, L.Owns dev a → (perform w L m dev pos op).mem a = (perform w L mem dev pos op).mem a := by
  have hown : Agrees L dev mem fun i => mem (L.mem dev+i) := fun _ _ => rfl
  obtain ⟨hp,ho,hm⟩ := perform_agrees (g := {load.g with mem := fun i => mem (L.mem dev+i)}) hown w pos op
  obtain ⟨hp',ho',hm'⟩ := perform_agrees (g := {load.g with mem := fun i => mem (L.mem dev+i)})
    (hown.frame h) w pos op
  refine ⟨hp'.trans hp.symm,ho'.trans ho.symm,fun a ha => ?_⟩
  obtain ⟨i,rfl⟩ := Nat.exists_eq_add_of_le ha.1
  have hi : i < globalmemSize := by have := ha.2; omega
  exact (hm' i hi).trans (hm i hi).symm

theorem step_confined {w : ℕ} {L : Layout} {s s' : State} {c : Call} (hbound : Bound L s.files)
    (h : step w L s c = some s') :
    ∃ k, k < deviceNum ∧ device L s c = some (L.dev k) ∧ Confined w L (L.dev k) s s' c := by
  cases c with
  | «open» f minor =>
    simp only [step, Option.ite_none_right_eq_some, Option.some.injEq] at h
    obtain ⟨hf,rfl⟩ := h
    refine ⟨minor,minor.isLt,rfl,fun _ _ => rfl,fun m hm => ?_⟩
    exact ⟨⟨m,_,_⟩,by simp only [step, if_pos hf],rfl,rfl,hm,fun _ _ => rfl⟩
  | release f =>
    simp only [step, Option.map_eq_some_iff] at h
    obtain ⟨x,hx,rfl⟩ := h
    obtain ⟨k,hk,hxk⟩ := hbound f x hx
    refine ⟨k,hk,by simp [device, hx, hxk],fun _ _ => rfl,fun m hm => ?_⟩
    exact ⟨⟨m,_,_⟩,by simp only [step, hx, Option.map_some],rfl,rfl,hm,fun _ _ => rfl⟩
  | io f op =>
    simp only [step, Option.map_eq_some_iff] at h
    obtain ⟨x,hx,rfl⟩ := h
    obtain ⟨k,hk,hxk⟩ := hbound f x hx
    refine ⟨k,hk,by simp [device, hx, hxk],?_⟩
    rw [← hxk]
    refine ⟨fun a ha => perform_frame ha w x.fPos op,fun m hm => ?_⟩
    obtain ⟨hp,ho,hmem⟩ := perform_reads (w := w) hm x.fPos op
    refine ⟨⟨(perform w L m x.privateData x.fPos op).mem,_,_⟩,?_,rfl,rfl,hmem,fun a ha => ?_⟩
    · simp only [step, hx, Option.map_some, hp, ho]
    · exact perform_frame ha w x.fPos op

/-- The devices of multi_globalmem are independent: no call touches a byte outside the array of
its own device, and the calls on one device return and leave what they would on the device of
globalmem alone. -/
theorem multi_globalmem_independent (w : ℕ) (L : Layout) (rest : ℕ → UInt8) {calls : List Call} {s : State}
    (h : run (step w L) (globalmemInit L rest) calls = some s) :
    (∀ c s', step w L s c = some s' →
      ∃ k, k < deviceNum ∧ device L s c = some (L.dev k) ∧ Confined w L (L.dev k) s s' c) ∧
    ∀ k, k < deviceNum → ∃ t, run (onGlobalmem w) load
      (restrict (step w L) (device L) (some (L.dev k)) (globalmemInit L rest) calls) = some t ∧ Sim L k s t := by
  have project : ∀ k, k < deviceNum → ∃ t, run (onGlobalmem w) load
      (restrict (step w L) (device L) (some (L.dev k)) (globalmemInit L rest) calls) = some t ∧ Sim L k s t := by
    intro k hk
    apply run_restrict (R := Sim L k) _ _ h (sim_init hk)
    · intro s t c s' hc hR hs
      exact step_own hc hR hs
    · intro s t c s' hc hR hs
      exact step_other hc hR hs
  obtain ⟨t,-,ht⟩ := project 0 (by decide)
  exact ⟨fun c s' hs => step_confined ht.bound hs,project⟩

/-- Two files on neighbouring devices, the first filled to its end. -/
theorem multi_globalmem_independent_two : ∃ L calls s,
    run (step 64 L) (globalmemInit L fun _ => 5) calls = some s ∧ s.outs.getLast? = some (L.dev 1,⟨2,[0,0]⟩) ∧
    (∀ c s', step 64 L s c = some s' →
      ∃ k, k < deviceNum ∧ device L s c = some (L.dev k) ∧ Confined 64 L (L.dev k) s s' c) ∧
    ∀ k, k < deviceNum → ∃ t, run (onGlobalmem 64) load
      (restrict (step 64 L) (device L) (some (L.dev k)) (globalmemInit L fun _ => 5) calls) = some t ∧
        Sim L k s t := by
  obtain ⟨s,hs,hp⟩ := exists_of_run_any (step 64 ⟨0x8000,0,104,4200,by decide⟩)
    (globalmemInit ⟨0x8000,0,104,4200,by decide⟩ fun _ => 5)
    [.open 1 ⟨0,by decide⟩,.open 2 ⟨1,by decide⟩,.io 1 (.pwrite 4094 9 (fun _ => 7) .done),
      .io 2 (.read 2 .done)]
    (fun s => s.outs.getLast? = some (0x8000+4200,⟨2,[0,0]⟩)) (by decide)
  simp only [decide_eq_true_eq] at hp
  exact ⟨_,_,s,hs,hp,multi_globalmem_independent 64 _ _ hs⟩

end ExampleKernel.GlobalMem.Multi
