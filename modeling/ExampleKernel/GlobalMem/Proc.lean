import Mathlib.Data.List.DropRight
import ExampleKernel.Foundation.Buffer
import ExampleKernel.Kernel.Basic

/-! The proc file of globalmem: one text of 20 bytes for everybody, and one end-of-file toggle that
every read flips. A history is the list of the calls so far, the latest one last. -/
namespace ExampleKernel.GlobalMem.Proc
open ExampleKernel.Foundation ExampleKernel.Kernel

def procArraySize : ℕ := 20

/-- `globalmem_proc_array`, as a window of a flat memory, and `globalmem_proc_len`. -/
structure State where
  globalmemProcArray : ℕ → UInt8
  globalmemProcLen : ℤ

def initialText : List UInt8 :=
  ['t','r','y',' ','p','r','o','c',' ','a','r','r','a','y','\n'].map fun c => c.toNat.toUInt8

def load : State := ⟨fun i => initialText.getD i 0,1⟩

/-- `buffer` is the memory of the caller, of the length it asks for. The result is the return value and
this memory afterwards: `copy_to_user` stores 20 bytes whatever the length. -/
def readProc (buffer : List UInt8) (s : State) : (ℕ × List UInt8) × State :=
  if s.globalmemProcLen ≠ 0 then
    ((buffer.length,slice s.globalmemProcArray 0 procArraySize ++ buffer.drop procArraySize),
      {s with globalmemProcLen := 0})
  else ((0,buffer),{s with globalmemProcLen := 1})

def writeProc (buff : ℕ → UInt8) (len : ℕ) (s : State) : ℕ × State :=
  (len,{s with globalmemProcArray := blit s.globalmemProcArray 0 len buff})

/-- What `write_proc` is called with: between 1 and 20 bytes. -/
structure Text where
  bytes : List UInt8
  nonempty : bytes ≠ []
  fits : bytes.length ≤ procArraySize

inductive Call
  | openProc (f : FileId)
  | writeProc (f : FileId) (text : Text)
  | readProc (f : FileId) (buffer : List UInt8)

/-- `open_proc` only prints. -/
def Call.run (s : State) : Call → State
  | .openProc _ => s
  | .writeProc _ text => (Proc.writeProc (text.bytes.getD · 0) text.bytes.length s).2
  | .readProc _ buffer => (Proc.readProc buffer s).2

/-- The state that a list of calls leaves. -/
def runCalls (s : State) (calls : List Call) : State := calls.foldl Call.run s

def Call.isRead : Call → Bool
  | .readProc _ _ => true
  | _ => false

def Call.isWrite : Call → Bool
  | .writeProc _ _ => true
  | _ => false

def Call.isReadOf (f : FileId) : Call → Bool
  | .readProc g _ => g = f
  | _ => false

/-- The bytes that a read hands over: as many as it returns. -/
def delivered (buffer : List UInt8) (s : State) : List UInt8 :=
  let result := (readProc buffer s).1
  result.2.take result.1

/-- What each read of the file `f` hands over, in order. -/
def received (f : FileId) (s : State) : List Call → List (List UInt8)
  | [] => []
  | c::calls =>
    let later := received f (c.run s) calls
    match c with
    | .readProc g buffer => if g = f then delivered buffer s :: later else later
    | _ => later

/-- The buffers that the file `f` is read into, in order. -/
def buffers (f : FileId) (calls : List Call) : List (List UInt8) :=
  calls.filterMap fun
    | .readProc g buffer => if g = f then some buffer else none
    | _ => none

/-- Without the trailing NULs. -/
def trim (bytes : List UInt8) : List UInt8 := bytes.rdropWhile (· = 0)

/-- Number of reads of other files before the first one of `f`. -/
def readsBefore (f : FileId) (calls : List Call) : ℕ :=
  (calls.takeWhile fun c => !c.isReadOf f).countP Call.isRead

/-- The calls after the first read of `f`. -/
def afterRead (f : FileId) (calls : List Call) : List Call :=
  (calls.dropWhile fun c => !c.isReadOf f).tail

section Trim

theorem trim_append_zeros (xs : List UInt8) {ys : List UInt8} (h : ∀ y ∈ ys, y = 0) : trim (xs ++ ys) = trim xs := by
  induction ys using List.reverseRecOn with
  | nil => rw [List.append_nil]
  | append_singleton ys y ih =>
    rw [← List.append_assoc,trim,List.rdropWhile_concat_pos _ _ _ (by simpa using h y (by simp))]
    exact ih fun z hz => h z (by simp [hz])

theorem trim_length_le (xs : List UInt8) : (trim xs).length ≤ xs.length :=
  (List.rdropWhile_prefix _ _).length_le

/-- What follows a text does not count exactly if it is NULs. -/
theorem trim_append_eq_iff (xs ys : List UInt8) : trim (xs ++ ys) = trim xs ↔ ∀ y ∈ ys, y = 0 := by
  refine ⟨fun h => ?_,trim_append_zeros xs⟩
  induction ys using List.reverseRecOn with
  | nil => exact fun y hy => absurd hy List.not_mem_nil
  | append_singleton ys y ih =>
    by_cases hy : y = 0
    · subst hy
      have hzero : ∀ z ∈ ([0] : List UInt8), z = 0 := fun z hz => List.mem_singleton.mp hz
      rw [← List.append_assoc,trim_append_zeros _ hzero] at h
      intro z hz
      obtain hz | hz := List.mem_append.mp hz
      · exact ih h z hz
      · exact hzero z hz
    · have hlen := trim_length_le xs
      rw [← h,← List.append_assoc,trim,List.rdropWhile_concat_neg _ _ _ (by simpa using hy)] at hlen
      simp at hlen

theorem trim_eq_nil_iff (xs : List UInt8) : trim xs = [] ↔ ∀ x ∈ xs, x = 0 := by
  simp [trim, List.rdropWhile_eq_nil_iff]

/-- Copies of a text with a tail, each followed by the rest of a buffer, amount to the text if there is
one copy and nothing but NULs with it; for a text of NULs their number does not count. -/
theorem trim_copies_iff (text tail : List UInt8) (rests : List (List UInt8)) :
    trim (rests.map fun rest => (text ++ tail) ++ rest).flatten = trim text ↔
      ((∀ x ∈ text, x = 0) ∨ rests.length = 1) ∧
        (rests = [] ∨ (∀ x ∈ tail, x = 0) ∧ ∀ rest ∈ rests, ∀ x ∈ rest, x = 0) := by
  cases rests with
  | nil =>
    have hnil : trim [] = [] := by simp [trim]
    rw [List.map_nil,List.flatten_nil,hnil,eq_comm,trim_eq_nil_iff]
    simp
  | cons rest rests =>
    rw [List.map_cons,List.flatten_cons,List.append_assoc,List.append_assoc,trim_append_eq_iff]
    simp only [List.forall_mem_append, List.forall_mem_flatten, List.forall_mem_map, List.forall_mem_cons,
      reduceCtorEq, false_or]
    constructor
    · rintro ⟨htail,hrest,hrests⟩
      refine ⟨?_,htail,hrest,fun r hr => (hrests r hr).2⟩
      cases rests with
      | nil => exact .inr rfl
      | cons r rests => exact .inl (hrests r List.mem_cons_self).1.1
    · rintro ⟨htext,htail,hrest,hrests⟩
      refine ⟨htail,hrest,fun r hr => ⟨⟨?_,htail⟩,hrests r hr⟩⟩
      refine htext.resolve_right fun hone => ?_
      rw [List.length_eq_zero_iff.mp (Nat.succ.inj hone)] at hr
      cases hr

end Trim

/-- Calls without a write, in which the file is read into buffers of at least 20 bytes until a read
returns 0. The reads before that one hand over `chunks`. -/
structure Session (f : FileId) (s : State) (calls : List Call) (chunks : List (List UInt8)) : Prop where
  quiet : ∀ c ∈ calls, c.isWrite = false
  room : ∀ b ∈ buffers f calls, procArraySize ≤ b.length
  ended : received f s calls = chunks ++ [[]]
  nonempty : ∀ c ∈ chunks, c ≠ []

/-- The bytes of the array behind the text are NULs. -/
def TailClear (s : State) (text : Text) : Prop :=
  ∀ i, text.bytes.length ≤ i → i < procArraySize → s.globalmemProcArray i = 0

section Calls
variable {f : FileId} {s : State} {calls : List Call}

@[simp] theorem runCalls_nil (s : State) : runCalls s [] = s := rfl

@[simp] theorem runCalls_cons (s : State) (c : Call) (calls : List Call) :
    runCalls s (c::calls) = runCalls (c.run s) calls := rfl

theorem runCalls_append (s : State) (calls later : List Call) :
    runCalls s (calls ++ later) = runCalls (runCalls s calls) later := List.foldl_append

theorem isReadOf_iff {c : Call} : c.isReadOf f = true ↔ ∃ buffer, c = .readProc f buffer := by
  cases c <;> simp [Call.isReadOf, eq_comm]

/-- Only writes change the text. -/
theorem procArray_run {c : Call} (h : c.isWrite = false) :
    (c.run s).globalmemProcArray = s.globalmemProcArray := by
  cases c with
  | openProc g => rfl
  | writeProc g text => contradiction
  | readProc g buffer => simp only [Call.run, readProc]; split_ifs <;> rfl

theorem procArray_runCalls (h : ∀ c ∈ calls, c.isWrite = false) :
    (runCalls s calls).globalmemProcArray = s.globalmemProcArray := by
  induction calls generalizing s with
  | nil => rfl
  | cons c calls ih =>
    rw [runCalls_cons,ih fun d hd => h d (List.mem_cons_of_mem c hd)]
    exact procArray_run (h c List.mem_cons_self)

/-- Only reads flip the toggle, and each of them does. -/
theorem procLen_run (c : Call) :
    (c.run s).globalmemProcLen ≠ 0 ↔ (s.globalmemProcLen ≠ 0 ↔ c.isRead = false) := by
  cases c with
  | readProc g buffer =>
    simp only [Call.run, readProc, Call.isRead, reduceCtorEq, iff_false]
    split_ifs with h <;> simp [h]
  | _ => simp [Call.run, writeProc, Call.isRead]

/-- One read more is one flip more. -/
theorem flip_iff (up : Prop) (n : ℕ) (read : Bool) :
    ((up ↔ read = false) ↔ Even n) ↔ (up ↔ Even (n+if read = true then 1 else 0)) := by
  cases read with
  | false => simp
  | true =>
    simp only [reduceCtorEq, iff_false, if_true, Nat.even_add_one]
    tauto

/-- The toggle is where it was after an even number of reads. -/
theorem procLen_runCalls (s : State) (calls : List Call) :
    (runCalls s calls).globalmemProcLen ≠ 0 ↔ (s.globalmemProcLen ≠ 0 ↔ Even (calls.countP Call.isRead)) := by
  induction calls generalizing s with
  | nil => simp
  | cons c calls ih =>
    rw [runCalls_cons,ih,procLen_run,List.countP_cons]
    exact flip_iff _ _ _

theorem delivered_eq {buffer : List UInt8} (h : procArraySize ≤ buffer.length) :
    delivered buffer s = if s.globalmemProcLen ≠ 0 then
      slice s.globalmemProcArray 0 procArraySize ++ buffer.drop procArraySize else [] := by
  unfold delivered readProc
  split_ifs with hlen
  · refine List.take_of_length_le ?_
    simp only [List.length_append, slice_length, List.length_drop]
    omega
  · rfl

/-- A read hands over nothing exactly when the toggle says so. -/
theorem delivered_eq_nil_iff {buffer : List UInt8} (h : procArraySize ≤ buffer.length) :
    delivered buffer s = [] ↔ s.globalmemProcLen = 0 := by
  rw [delivered_eq h]
  split_ifs with hlen
  · refine iff_of_false (fun hnil => ?_) hlen
    have hsize := congrArg List.length hnil
    simp [procArraySize] at hsize
  · exact iff_of_true rfl (not_not.mp hlen)

/-- A read that hands something over hands over the text and the rest of its buffer. -/
theorem delivered_text {buffer : List UInt8} (h : procArraySize ≤ buffer.length) (hne : delivered buffer s ≠ []) :
    delivered buffer s = slice s.globalmemProcArray 0 procArraySize ++ buffer.drop procArraySize := by
  have hup : s.globalmemProcLen ≠ 0 := fun hdown => hne ((delivered_eq_nil_iff h).mpr hdown)
  rw [delivered_eq h,if_pos hup]

theorem received_skip {c : Call} (h : c.isReadOf f = false) :
    received f s (c::calls) = received f (c.run s) calls := by
  cases c with
  | readProc g buffer =>
    have hg : g ≠ f := by simpa [Call.isReadOf] using h
    exact if_neg hg
  | _ => rfl

theorem buffers_skip {c : Call} (h : c.isReadOf f = false) : buffers f (c::calls) = buffers f calls := by
  cases c with
  | readProc g buffer =>
    have hg : g ≠ f := by simpa [Call.isReadOf] using h
    exact List.filterMap_cons_none (if_neg hg)
  | _ => rfl

theorem received_read (buffer : List UInt8) : received f s (.readProc f buffer::calls) =
    delivered buffer s :: received f ((Call.readProc f buffer).run s) calls := if_pos rfl

theorem buffers_read (buffer : List UInt8) :
    buffers f (.readProc f buffer::calls) = buffer :: buffers f calls := List.filterMap_cons_some (if_pos rfl)

theorem received_length : (received f s calls).length = (buffers f calls).length := by
  induction calls generalizing s with
  | nil => rfl
  | cons c calls ih =>
    cases hc : c.isReadOf f with
    | false => rw [received_skip hc,buffers_skip hc,ih]
    | true =>
      obtain ⟨buffer,rfl⟩ := isReadOf_iff.mp hc
      rw [received_read buffer,buffers_read buffer,List.length_cons,List.length_cons,ih]

/-- The first read of the file, the toggle that it finds, and the calls after it. -/
theorem received_first {r : List UInt8} {rs : List (List UInt8)} (h : received f s calls = r::rs) :
    ∃ s' buffer, r = delivered buffer s' ∧
      (s'.globalmemProcLen ≠ 0 ↔ (s.globalmemProcLen ≠ 0 ↔ Even (readsBefore f calls))) ∧
      rs = received f ((Call.readProc f buffer).run s') (afterRead f calls) ∧
      buffers f calls = buffer :: buffers f (afterRead f calls) := by
  induction calls generalizing s with
  | nil => contradiction
  | cons c calls ih =>
    cases hc : c.isReadOf f with
    | false =>
      rw [received_skip hc] at h
      obtain ⟨s',buffer,hr,hlen,hrs,hbuffers⟩ := ih h
      have hbefore : readsBefore f (c::calls) = readsBefore f calls+if c.isRead = true then 1 else 0 := by
        simp [readsBefore, hc, List.countP_cons]
      have hafter : afterRead f (c::calls) = afterRead f calls := by simp [afterRead, hc]
      refine ⟨s',buffer,hr,?_,by rwa [hafter],by rw [buffers_skip hc,hafter]; exact hbuffers⟩
      rw [hlen,procLen_run,hbefore]
      exact flip_iff _ _ _
    | true =>
      obtain ⟨buffer,rfl⟩ := isReadOf_iff.mp hc
      rw [received_read buffer,List.cons.injEq] at h
      have hbefore : readsBefore f (.readProc f buffer::calls) = 0 := by simp [readsBefore, hc]
      have hafter : afterRead f (.readProc f buffer::calls) = calls := by simp [afterRead, hc]
      refine ⟨s,buffer,h.1.symm,by rw [hbefore]; simp,by rw [hafter,h.2],?_⟩
      rw [buffers_read buffer,hafter]

/-- In a session every read but the last one hands over the text and the rest of its buffer. -/
theorem chunks_eq {chunks : List (List UInt8)} (h : Session f s calls chunks) :
    chunks = (buffers f calls).dropLast.map fun b =>
      slice s.globalmemProcArray 0 procArraySize ++ b.drop procArraySize := by
  obtain ⟨hquiet,hroom,hended,hnonempty⟩ := h
  induction calls generalizing s chunks with
  | nil => simp [received] at hended
  | cons c calls ih =>
    have hquiet' : ∀ d ∈ calls, d.isWrite = false := fun d hd => hquiet d (List.mem_cons_of_mem c hd)
    have harray : (c.run s).globalmemProcArray = s.globalmemProcArray := procArray_run (hquiet c List.mem_cons_self)
    cases hc : c.isReadOf f with
    | false =>
      rw [received_skip hc] at hended
      rw [buffers_skip hc] at hroom ⊢
      rw [← harray]
      exact ih hquiet' hroom hended hnonempty
    | true =>
      obtain ⟨buffer,rfl⟩ := isReadOf_iff.mp hc
      rw [received_read buffer] at hended
      rw [buffers_read buffer] at hroom ⊢
      obtain ⟨hbuffer,hroom'⟩ := List.forall_mem_cons.mp hroom
      cases chunks with
      | nil =>
        -- the first read hands over nothing, so it is the last one
        have hlast : (received f ((Call.readProc f buffer).run s) calls).length = 0 := by
          rw [(List.cons.inj hended).2]; rfl
        rw [received_length,List.length_eq_zero_iff] at hlast
        rw [hlast]
        rfl
      | cons chunk chunks =>
        obtain ⟨hchunk,hlater⟩ := List.cons.inj hended
        have hmore : buffers f calls ≠ [] := by
          intro hnone
          have hlen := congrArg List.length hlater
          rw [received_length,hnone] at hlen
          simp at hlen
        rw [List.dropLast_cons_of_ne_nil hmore,List.map_cons,← harray,
          ← ih hquiet' hroom' hlater fun d hd => hnonempty d (List.mem_cons_of_mem chunk hd)]
        have hne := hnonempty chunk List.mem_cons_self
        rw [← hchunk] at hne ⊢
        rw [delivered_text hbuffer hne,harray]

theorem mem_of_mem_afterRead {c : Call} (h : c ∈ afterRead f calls) : c ∈ calls :=
  (List.dropWhile_suffix _).subset (List.mem_of_mem_tail h)

/-- Whether the first read hands something over is a matter of the reads before it. What comes after
it is a session again, from a state with the toggle down. -/
theorem Session.first {chunks : List (List UInt8)} (h : Session f s calls chunks) :
    (chunks = [] ↔ ¬ (s.globalmemProcLen ≠ 0 ↔ Even (readsBefore f calls))) ∧
      ∀ chunk later, chunks = chunk::later →
        ∃ t, t.globalmemProcLen = 0 ∧ Session f t (afterRead f calls) later := by
  obtain ⟨hquiet,hroom,hended,hnonempty⟩ := h
  obtain ⟨r,rs,hhead⟩ : ∃ r rs, chunks ++ [[]] = r::rs := by cases chunks <;> exact ⟨_,_,rfl⟩
  obtain ⟨s',buffer,hr,hlen,hrs,hbuffers⟩ := received_first (hended.trans hhead)
  rw [hbuffers] at hroom
  obtain ⟨hbuffer,hroom'⟩ := List.forall_mem_cons.mp hroom
  rw [← hlen,not_not,← delivered_eq_nil_iff hbuffer,← hr]
  cases chunks with
  | nil => exact ⟨iff_of_true rfl (List.cons.inj hhead).1.symm,nofun⟩
  | cons chunk later =>
    obtain ⟨rfl,hlater⟩ := List.cons.inj hhead
    have hne := hnonempty chunk List.mem_cons_self
    refine ⟨iff_of_false (List.cons_ne_nil _ _) hne,fun chunk' later' heq => ?_⟩
    obtain ⟨-,rfl⟩ := List.cons.inj heq
    refine ⟨(Call.readProc f buffer).run s',?_,fun c hc => hquiet c (mem_of_mem_afterRead hc),hroom',
      hrs.symm.trans hlater.symm,fun c hc => hnonempty c (List.mem_cons_of_mem chunk hc)⟩
    have hup : s'.globalmemProcLen ≠ 0 := fun hdown => hne (by rw [hr,delivered_eq_nil_iff hbuffer,hdown])
    simp [Call.run, readProc, hup]

end Calls

/-- Number of reads by whatever file. -/
def reads (calls : List Call) : ℕ := calls.countP Call.isRead

/-- The file finds the toggle up at its first read, and down at its second one. -/
def FirstUp (past : List Call) (f : FileId) (session : List Call) : Prop := Even (reads past+readsBefore f session)

def SecondDown (f : FileId) (session : List Call) : Prop := Even (readsBefore f (afterRead f session))

theorem Session.chunks_iff {past session : List Call} {f : FileId} {chunks : List (List UInt8)}
    (h : Session f (runCalls load past) session chunks) :
    (chunks = [] ↔ ¬ FirstUp past f session) ∧
      (chunks.length = 1 ↔ FirstUp past f session ∧ SecondDown f session) := by
  obtain ⟨hfirst,hlater⟩ := h.first
  have hload : load.globalmemProcLen ≠ 0 := one_ne_zero
  have hup : ((runCalls load past).globalmemProcLen ≠ 0 ↔ Even (readsBefore f session)) ↔
      FirstUp past f session := by
    rw [procLen_runCalls,iff_true_left hload,FirstUp,Nat.even_add]
    exact Iff.rfl
  rw [hup] at hfirst
  refine ⟨hfirst,?_⟩
  cases chunks with
  | nil => exact iff_of_false (by simp) fun hboth => hfirst.mp rfl hboth.1
  | cons chunk later =>
    obtain ⟨t,ht,hsecond⟩ := hlater chunk later rfl
    have hdown := hsecond.first.1
    simp only [ht, ne_eq, not_true, false_iff, not_not] at hdown
    have hyes : FirstUp past f session := by
      by_contra hno
      exact List.cons_ne_nil _ _ (hfirst.mpr hno)
    rw [List.length_cons,Nat.add_eq_right,List.length_eq_zero_iff,hdown]
    exact (and_iff_right hyes).symm

/-- The text is in front of the array, and what was behind it is still there. -/
theorem text_after_write (g : FileId) (text : Text) (s : State) :
    slice ((Call.writeProc g text).run s).globalmemProcArray 0 procArraySize =
      text.bytes ++ slice s.globalmemProcArray text.bytes.length (procArraySize-text.bytes.length) := by
  change slice (blit s.globalmemProcArray 0 text.bytes.length (text.bytes.getD · 0)) 0 procArraySize = _
  rw [slice_split _ 0 text.fits,Nat.zero_add,slice_blit_self,slice_getD]
  congr 1
  exact slice_congr fun i _ => blit_outside _ _ _ _ (.inr (by omega))

theorem tailClear_iff (s : State) (text : Text) :
    (∀ x ∈ slice s.globalmemProcArray text.bytes.length (procArraySize-text.bytes.length), x = 0) ↔
      TailClear s text := by
  simp only [slice, List.forall_mem_map, List.mem_range, TailClear]
  constructor
  · intro h i hle hlt
    simpa [Nat.add_sub_cancel' hle] using h (i-text.bytes.length) (by omega)
  · intro h i hi
    exact h _ (by omega) (by omega)

theorem firstUp_past (before between : List Call) (f g : FileId) (text : Text) (session : List Call) :
    FirstUp (before ++ .writeProc g text :: between ++ [.openProc f]) f session ↔
      FirstUp (before ++ between) f session := by
  simp [FirstUp, reads, Call.isRead]

/-- Between the last write and the session the text does not change. -/
theorem text_at_open {between : List Call} (h : ∀ c ∈ between, c.isWrite = false) (before : List Call)
    (f g : FileId) (text : Text) :
    slice (runCalls load (before ++ .writeProc g text :: between ++ [.openProc f])).globalmemProcArray 0 procArraySize =
      text.bytes ++ slice (runCalls load before).globalmemProcArray text.bytes.length
        (procArraySize-text.bytes.length) := by
  rw [runCalls_append,runCalls_append,runCalls_cons,runCalls_cons,runCalls_nil]
  rw [procArray_run rfl,procArray_runCalls h,text_after_write]

/-- For every sequence of opens, writes and reads: a file opened after the last write, and read until a
read returns 0, receives the text of this write once exactly when it finds the toggle up and then
down, and nothing but NULs comes with the text. For a text of NULs it may also receive nothing, or
several such copies. -/
theorem round_trip_iff {before between session : List Call} {f g : FileId} {text : Text}
    {chunks : List (List UInt8)} (hbetween : ∀ c ∈ between, c.isWrite = false)
    (h : Session f (runCalls load (before ++ .writeProc g text :: between ++ [.openProc f])) session chunks) :
    trim chunks.flatten = trim text.bytes ↔
      ((∀ x ∈ text.bytes, x = 0) ∨ FirstUp (before ++ between) f session ∧ SecondDown f session) ∧
        (¬ FirstUp (before ++ between) f session ∨ TailClear (runCalls load before) text ∧
          ∀ b ∈ (buffers f session).dropLast, ∀ x ∈ b.drop procArraySize, x = 0) := by
  obtain ⟨hnone,hone⟩ := h.chunks_iff
  rw [firstUp_past] at hnone hone
  have hchunks := chunks_eq h
  rw [text_at_open hbetween] at hchunks
  have hrests : chunks = ((buffers f session).dropLast.map (List.drop procArraySize)).map fun rest =>
      (text.bytes ++ slice (runCalls load before).globalmemProcArray text.bytes.length
        (procArraySize-text.bytes.length)) ++ rest := by
    rw [List.map_map]; exact hchunks
  have hlength : ((buffers f session).dropLast.map (List.drop procArraySize)).length = chunks.length := by
    rw [hchunks,List.length_map,List.length_map]
  have hempty : (buffers f session).dropLast.map (List.drop procArraySize) = [] ↔ chunks = [] := by
    rw [← List.length_eq_zero_iff,hlength,List.length_eq_zero_iff]
  conv_lhs => rw [hrests]
  rw [trim_copies_iff,hlength,hone,hempty,hnone,tailClear_iff,List.forall_mem_map]

/-- The text of 19 bytes covers the initial one, and two reads of another file come before. -/
theorem round_trip_iff_two_files : ∃ (text : Text) (session : List Call) (chunks : List (List UInt8)),
    Session 5 (runCalls load ([] ++ .writeProc 3 text :: List.replicate 2 (.readProc 4 []) ++ [.openProc 5]))
      session chunks ∧ text.bytes.length = 19 ∧ trim chunks.flatten = trim text.bytes := by
  let text : Text := ⟨['d','e','v','i','c','e',' ','d','r','i','v','e','r',' ','t','e','s','t','\n'].map
    fun c => c.toNat.toUInt8,by decide,by decide⟩
  let session : List Call := List.replicate 2 (.readProc 5 (List.replicate 24 0))
  have h : Session 5 (runCalls load ([] ++ .writeProc 3 text :: List.replicate 2 (.readProc 4 []) ++ [.openProc 5]))
      session [text.bytes ++ List.replicate 5 0] :=
    ⟨by simp [session, Call.isWrite],by decide,by decide,by decide⟩
  refine ⟨text,session,_,h,by decide,(round_trip_iff (by simp [Call.isWrite]) h).mpr ⟨.inr ?_,.inr ⟨?_,?_⟩⟩⟩
  · unfold FirstUp SecondDown
    decide
  · intro i hle hlt
    obtain rfl : i = 19 := by
      have hlen : text.bytes.length = 19 := by decide
      simp only [procArraySize] at hlt
      omega
    rfl
  · simp [session, buffers, procArraySize]

/-- A text of two bytes leaves the rest of the initial one behind it, and a read by another file makes
the first read find the end of file. -/
theorem proc_text_not_returned :
    (∃ (text : Text) (session : List Call) (chunks : List (List UInt8)),
      Session 5 (runCalls load ([] ++ .writeProc 3 text :: [] ++ [.openProc 5])) session chunks ∧
      trim text.bytes = [7,8] ∧ (trim chunks.flatten).take 4 = [7,8,121,32]) ∧
    (∃ (text : Text) (session : List Call),
      Session 5 (runCalls load ([] ++ .writeProc 3 text :: [.readProc 4 []] ++ [.openProc 5])) session [] ∧
      trim text.bytes = [7,8]) := by
  let text : Text := ⟨[7,8],by decide,by decide⟩
  constructor
  · refine ⟨text,List.replicate 2 (.readProc 5 (List.replicate 20 0)),[7::8::initialText.drop 2 ++ List.replicate 5 0],
      ⟨by simp [Call.isWrite],by decide,by decide,by decide⟩,by decide,by decide⟩
  · exact ⟨text,[.readProc 5 (List.replicate 20 0)],⟨by simp [Call.isWrite],by decide,by decide,nofun⟩,by decide⟩

end ExampleKernel.GlobalMem.Proc
