import ExampleKernel.Foundation.Transition
import ExampleKernel.Kernel.Basic

/-! The file operations of globalmem, each executed in one go. The width `w` of `unsigned long`
is a parameter; `loff_t` has 64 bits and `unsigned int` 32 on every machine. -/
namespace ExampleKernel.GlobalMem
open ExampleKernel.Foundation ExampleKernel.Kernel

def globalmemSize : ℕ := 0x1000

/-- `_IOW('g', nr, int32_t *)` on a machine with 64-bit pointers. -/
def iow (nr : UInt32) : UInt32 := 0x40000000+8*0x10000+0x67*0x100+nr

def memClear : UInt32 := iow 0x01
def regCurrentTask : UInt32 := iow 0x02
def sigEtx : ℕ := 44

/-- Conversion to `unsigned long`. -/
def unsignedLong (w : ℕ) (x : ℤ) : ℕ := (x%2^w).toNat

/-- Conversion to `unsigned int`. -/
def unsignedInt (x : ℤ) : ℕ := (x%2^32).toNat

/-- The value that wrapping arithmetic on `loff_t` leaves. -/
def loffT (x : ℤ) : ℤ := x.bmod (2^64)

/-- `dev->mem` and the globals of the module that the file operations use. The array is a window
of a flat memory; `dataReadComplete` is the count of a completion. -/
structure Globalmem where
  mem : ℕ → UInt8
  sigTask : Option Pid
  sigNum : ℕ
  completionFlag : ℤ
  dataReadComplete : ℕ

/-- What a call returns, the position it leaves in `*ppos`, and the bytes it stored for the user. -/
structure IoResult where
  ret : ℤ
  ppos : ℤ
  bytes : List UInt8

/-- The notification at the end of a read: `complete` unless a completion is already pending. -/
def Globalmem.notify (g : Globalmem) : Globalmem :=
  {g with
    completionFlag := 1
    dataReadComplete := if g.dataReadComplete = 0 then 1 else g.dataReadComplete}

/-- `if (count > GLOBALMEM_SIZE - p) count = GLOBALMEM_SIZE - p;` for a position inside the array. -/
def clampCount (count p : ℕ) : ℕ := if count > globalmemSize-p then globalmemSize-p else count

theorem clampCount_le (count : ℕ) {p : ℕ} (h : p < globalmemSize) : p+clampCount count p ≤ globalmemSize := by
  unfold clampCount
  split_ifs <;> omega

def globalmemRead (w : ℕ) (g : Globalmem) (size : ℕ) (ppos : ℤ) (copy : UserCopy) : Globalmem × IoResult :=
  let p := unsignedLong w ppos
  if p ≥ globalmemSize then (g,⟨0,ppos,[]⟩)
  else
    let count := clampCount (unsignedInt size) p
    match copy with
    | .fault k _ =>
      if k < count then (g.notify,⟨-efault,ppos,slice g.mem p k⟩)
      else (g.notify,⟨intOf count,loffT (ppos+count),slice g.mem p count⟩)
    | .done => (g.notify,⟨intOf count,loffT (ppos+count),slice g.mem p count⟩)

def globalmemWrite (w : ℕ) (g : Globalmem) (size : ℕ) (buf : ℕ → UInt8) (ppos : ℤ) (copy : UserCopy) :
    Globalmem × IoResult :=
  let p := unsignedLong w ppos
  if p ≥ globalmemSize then (g,⟨0,ppos,[]⟩)
  else
    let count := clampCount (unsignedInt size) p
    match copy with
    | .fault k zeroed =>
      if k < count then ({g with mem := copyFromUserFault g.mem p count k buf zeroed},⟨-efault,ppos,[]⟩)
      else ({g with mem := blit g.mem p count buf},⟨intOf count,loffT (ppos+count),[]⟩)
    | .done => ({g with mem := blit g.mem p count buf},⟨intOf count,loffT (ppos+count),[]⟩)

/-- The new `f_pos` and the return value. -/
def globalmemLlseek (fpos offset orig : ℤ) : ℤ × ℤ :=
  if orig = 0 then
    if offset < 0 then (fpos,-einval)
    else if unsignedInt offset > globalmemSize then (fpos,-einval)
    else (unsignedInt offset,unsignedInt offset)
  else if orig = 1 then
    if loffT (fpos+offset) > globalmemSize then (fpos,-einval)
    else if loffT (fpos+offset) < 0 then (fpos,-einval)
    else (loffT (fpos+offset),loffT (fpos+offset))
  else (fpos,-einval)

def globalmemIoctl (g : Globalmem) (cmd : UInt32) (current : Pid) : Globalmem × ℤ :=
  if cmd = memClear then ({g with mem := blit g.mem 0 globalmemSize fun _ => 0},0)
  else if cmd = regCurrentTask then ({g with sigTask := some current, sigNum := sigEtx},0)
  else (g,-einval)

def globalmemRelease (g : Globalmem) (current : Pid) : Globalmem :=
  if some current = g.sigTask then {g with sigTask := none} else g

/-- A call by a process, through an open file. -/
inductive Call
  | open (f : FileId)
  | release (f : FileId) (current : Pid)
  | read (f : FileId) (size : ℕ) (copy : UserCopy)
  | write (f : FileId) (size : ℕ) (buf : ℕ → UInt8) (copy : UserCopy)
  | llseek (f : FileId) (offset orig : ℤ)
  | ioctl (f : FileId) (cmd : UInt32) (current : Pid)

structure Out where
  ret : ℤ
  bytes : List UInt8
  deriving DecidableEq, Repr

/-- The module and the open files with their positions; `outs` lists what the calls returned. -/
structure Sys where
  g : Globalmem
  fpos : FileId → Option ℤ
  outs : List Out

/-- Store a result: the VFS writes `*ppos` back to the file of the call. -/
def Sys.finish (s : Sys) (f : FileId) (r : Globalmem × IoResult) : Sys where
  g := r.1
  fpos := Function.update s.fpos f (some r.2.ppos)
  outs := s.outs ++ [⟨r.2.ret,r.2.bytes⟩]

/-- One call, made on its own; calls through files that are not open do not reach the module. -/
def step (w : ℕ) (s : Sys) : Call → Option Sys
  | .open f =>
    if s.fpos f = none then some ⟨s.g,Function.update s.fpos f (some 0),s.outs ++ [⟨0,[]⟩]⟩ else none
  | .release f current =>
    (s.fpos f).map fun _ =>
      ⟨globalmemRelease s.g current,Function.update s.fpos f none,s.outs ++ [⟨0,[]⟩]⟩
  | .read f size copy => (s.fpos f).map fun pos => s.finish f (globalmemRead w s.g size pos copy)
  | .write f size buf copy => (s.fpos f).map fun pos => s.finish f (globalmemWrite w s.g size buf pos copy)
  | .llseek f offset orig => (s.fpos f).map fun pos =>
      let r := globalmemLlseek pos offset orig
      ⟨s.g,Function.update s.fpos f (some r.1),s.outs ++ [⟨r.2,[]⟩]⟩
  | .ioctl f cmd current => (s.fpos f).map fun _ =>
      let r := globalmemIoctl s.g cmd current
      ⟨r.1,s.fpos,s.outs ++ [⟨r.2,[]⟩]⟩

/-- The module as loaded: the device zeroed by `kzalloc`, no file open. -/
def load : Sys := ⟨⟨fun _ => 0,none,0,0,0⟩,fun _ => none,[]⟩

end ExampleKernel.GlobalMem
