import ExampleKernel.GlobalMem.Device

/-! globalmem refines an array of 4096 bytes with one cursor per open file. The types of the
abstract state leave no room for a cursor outside the array. -/
namespace ExampleKernel.GlobalMem
open ExampleKernel.Foundation ExampleKernel.Kernel

/-- A position in the array, its end included. -/
abbrev Cursor := Fin (globalmemSize+1)

/-- The abstract device: the bytes, a cursor for each open file, and the results so far. -/
structure CursorArray where
  cells : Fin globalmemSize → UInt8
  cursor : FileId → Option Cursor
  outs : List Out

namespace CursorArray

/-- The byte at an index, zero outside the array. -/
def byte (cells : Fin globalmemSize → UInt8) (i : ℕ) : UInt8 :=
  if h : i < globalmemSize then cells ⟨i,h⟩ else 0

/-- The bytes `p` to `p+n-1`. -/
def window (a : CursorArray) (p n : ℕ) : List UInt8 := slice (byte a.cells) p n

/-- How many bytes a transfer of `size` bytes moves at a cursor. -/
def span (p : Cursor) (size : ℕ) : ℕ := min size (globalmemSize-p)

/-- The cursor after a transfer. -/
def advance (p : Cursor) (size : ℕ) : Cursor := ⟨p+span p size,by have := p.isLt; unfold span; omega⟩

def overwrite (a : CursorArray) (p n : ℕ) (data : ℕ → UInt8) : Fin globalmemSize → UInt8 :=
  fun i => if p ≤ i.val ∧ i.val < p+n then data (i.val-p) else a.cells i

/-- What each call means. A seek goes to any position or is refused. -/
inductive Step (a : CursorArray) : Call → CursorArray → Prop
  | open {f} (h : a.cursor f = none) :
    Step a (.open f) ⟨a.cells,Function.update a.cursor f (some 0),a.outs ++ [⟨0,[]⟩]⟩
  | release {f p current} (h : a.cursor f = some p) :
    Step a (.release f current) ⟨a.cells,Function.update a.cursor f none,a.outs ++ [⟨0,[]⟩]⟩
  | read {f p size} (h : a.cursor f = some p) : Step a (.read f size .done)
    ⟨a.cells,Function.update a.cursor f (some (advance p size)),
      a.outs ++ [⟨span p size,a.window p (span p size)⟩]⟩
  | write {f p size buf} (h : a.cursor f = some p) : Step a (.write f size buf .done)
    ⟨a.overwrite p (span p size) buf,Function.update a.cursor f (some (advance p size)),
      a.outs ++ [⟨span p size,[]⟩]⟩
  | seek {f p offset orig} (q : Cursor) (h : a.cursor f = some p) : Step a (.llseek f offset orig)
    ⟨a.cells,Function.update a.cursor f (some q),a.outs ++ [⟨(q : ℕ),[]⟩]⟩
  | refuse {f p offset orig} (h : a.cursor f = some p) : Step a (.llseek f offset orig)
    ⟨a.cells,a.cursor,a.outs ++ [⟨-einval,[]⟩]⟩
  | clear {f p current} (h : a.cursor f = some p) :
    Step a (.ioctl f memClear current) ⟨fun _ => 0,a.cursor,a.outs ++ [⟨0,[]⟩]⟩
  | register {f p current} (h : a.cursor f = some p) :
    Step a (.ioctl f regCurrentTask current) ⟨a.cells,a.cursor,a.outs ++ [⟨0,[]⟩]⟩
  | reject {f p cmd current} (h : a.cursor f = some p) (hclear : cmd ≠ memClear)
    (hreg : cmd ≠ regCurrentTask) :
    Step a (.ioctl f cmd current) ⟨a.cells,a.cursor,a.outs ++ [⟨-einval,[]⟩]⟩

theorem byte_clear : byte (fun _ => 0) = fun _ => 0 := by
  funext i
  simp [byte]

/-- Stores inside the array are stores into the cells. -/
theorem byte_overwrite (a : CursorArray) {p n : ℕ} (h : p+n ≤ globalmemSize) (data : ℕ → UInt8) :
    blit (byte a.cells) p n data = byte (a.overwrite p n data) := by
  funext i
  unfold byte overwrite blit
  by_cases hi : i < globalmemSize
  · simp [hi]
  · have hout : ¬ (p ≤ i ∧ i < p+n) := by omega
    simp [hi, hout]

theorem span_le (p : Cursor) (size : ℕ) : p.val+span p size ≤ globalmemSize := by
  have := p.isLt
  unfold span
  omega

end CursorArray

/-- The concrete state holds exactly the abstract array, cursors and results. -/
structure Represents (s : Sys) (a : CursorArray) : Prop where
  mem : s.g.mem = CursorArray.byte a.cells
  fpos : ∀ f, s.fpos f = (a.cursor f).map fun p => (p.val : ℤ)
  outs : s.outs = a.outs

/-- What the VFS promises about the arguments of a call, all user copies succeeding. -/
def Call.vfs : Call → Prop
  | .read _ size copy => size ≤ 0x7ffff000 ∧ copy = .done
  | .write _ size _ copy => size ≤ 0x7ffff000 ∧ copy = .done
  | .llseek _ offset _ => -2^63 ≤ offset ∧ offset < 2^63
  | _ => True

section Arithmetic

theorem unsignedLong_cursor (p : Cursor) : unsignedLong 64 (p.val : ℤ) = p.val := by
  have := p.isLt
  unfold globalmemSize at this
  unfold unsignedLong
  omega

theorem unsignedInt_of_lt {n : ℕ} (h : n < 2^32) : unsignedInt n = n := by
  unfold unsignedInt
  omega

/-- The clamp leaves the span of the transfer. -/
theorem clampCount_span {p : Cursor} {size : ℕ} (h : size ≤ 0x7ffff000) :
    clampCount (unsignedInt size) p.val = CursorArray.span p size := by
  rw [unsignedInt_of_lt (by omega)]
  unfold clampCount CursorArray.span
  split_ifs <;> omega

theorem loffT_of_lt {x : ℤ} (hlow : -2^63 ≤ x) (hhigh : x < 2^63) : loffT x = x := by
  unfold loffT
  exact Int.bmod_eq_of_le (by omega) (by omega)

end Arithmetic

/-- At any cursor a read moves the span; at the end of the array the span is empty. -/
theorem globalmemRead_span (g : Globalmem) (p : Cursor) {size : ℕ} (h : size ≤ 0x7ffff000) :
    ∃ g', globalmemRead 64 g size p.val .done = (g',⟨CursorArray.span p size,
      (CursorArray.advance p size).val,slice g.mem p.val (CursorArray.span p size)⟩) ∧ g'.mem = g.mem := by
  have hspan := CursorArray.span_le p size
  unfold globalmemSize at hspan
  simp only [globalmemRead, unsignedLong_cursor, clampCount_span h]
  by_cases hp : p.val ≥ globalmemSize
  · have hzero : CursorArray.span p size = 0 := by unfold CursorArray.span; omega
    rw [if_pos hp]
    exact ⟨g,by simp [CursorArray.advance, hzero],rfl⟩
  · rw [if_neg hp]
    refine ⟨g.notify,?_,rfl⟩
    simp only [intOf_of_lt (by omega : CursorArray.span p size < 2^31),
      loffT_of_lt (by omega : -2^63 ≤ (p.val : ℤ)+CursorArray.span p size) (by omega)]
    rfl

/-- At any cursor a write replaces the span and nothing else. -/
theorem globalmemWrite_span (g : Globalmem) (p : Cursor) {size : ℕ} (h : size ≤ 0x7ffff000)
    (buf : ℕ → UInt8) : globalmemWrite 64 g size buf p.val .done =
      ({g with mem := blit g.mem p.val (CursorArray.span p size) buf},
        ⟨CursorArray.span p size,(CursorArray.advance p size).val,[]⟩) := by
  have hspan := CursorArray.span_le p size
  unfold globalmemSize at hspan
  simp only [globalmemWrite, unsignedLong_cursor, clampCount_span h]
  by_cases hp : p.val ≥ globalmemSize
  · have hzero : CursorArray.span p size = 0 := by unfold CursorArray.span; omega
    rw [if_pos hp]
    simp [CursorArray.advance, hzero]
  · rw [if_neg hp]
    simp only [intOf_of_lt (by omega : CursorArray.span p size < 2^31),
      loffT_of_lt (by omega : -2^63 ≤ (p.val : ℤ)+CursorArray.span p size) (by omega)]
    rfl

/-- A seek goes to a position of the array, or is refused and leaves the position. -/
theorem globalmemLlseek_cases (p : Cursor) (offset orig : ℤ) :
    (∃ q : Cursor, globalmemLlseek p.val offset orig = ((q.val : ℤ),(q.val : ℤ))) ∨
      globalmemLlseek p.val offset orig = ((p.val : ℤ),-einval) := by
  unfold globalmemLlseek
  split_ifs with _ _ hbig _ hbig hneg
  · exact .inr rfl
  · exact .inr rfl
  · exact .inl ⟨⟨unsignedInt offset,by omega⟩,rfl⟩
  · exact .inr rfl
  · exact .inr rfl
  · refine .inl ⟨⟨(loffT (p.val+offset)).toNat,by omega⟩,?_⟩
    simp [Int.toNat_of_nonneg (by omega : 0 ≤ loffT (p.val+offset))]
  · exact .inr rfl

theorem Represents.cursor {s : Sys} {a : CursorArray} (h : Represents s a) {f : FileId} {pos : ℤ}
    (hf : s.fpos f = some pos) : ∃ p : Cursor, a.cursor f = some p ∧ pos = p.val := by
  rw [h.fpos f,Option.map_eq_some_iff] at hf
  obtain ⟨p,hp,rfl⟩ := hf
  exact ⟨p,hp,rfl⟩

/-- Moving the position of one file moves its cursor. -/
theorem Represents.update {s : Sys} {a : CursorArray} (h : Represents s a) (f : FileId)
    (p : Option Cursor) (g : FileId) :
    Function.update s.fpos f (p.map fun p => (p.val : ℤ)) g =
      (Function.update a.cursor f p g).map fun p => (p.val : ℤ) := by
  by_cases hg : g = f
  · subst hg; simp
  · simp [Function.update_of_ne hg, h.fpos g]

theorem represents_load : Represents load ⟨fun _ => 0,fun _ => none,[]⟩ :=
  ⟨CursorArray.byte_clear.symm,fun _ => rfl,rfl⟩

/-- Every call does on the device what the abstract array allows. -/
theorem step_represents {s s' : Sys} {a : CursorArray} {c : Call} (hc : c.vfs) (hR : Represents s a)
    (h : step 64 s c = some s') : ∃ a', CursorArray.Step a c a' ∧ Represents s' a' := by
  obtain ⟨hmem,hfpos,houts⟩ := id hR
  cases c with
  | «open» f =>
    simp only [step, Option.ite_none_right_eq_some, Option.some.injEq] at h
    obtain ⟨hf,rfl⟩ := h
    have hnone : a.cursor f = none := by simpa [hfpos f] using hf
    exact ⟨_,.open hnone,hmem,hR.update f (some 0),by simp [houts]⟩
  | release f current =>
    simp only [step, Option.map_eq_some_iff] at h
    obtain ⟨pos,hf,rfl⟩ := h
    obtain ⟨p,hp,rfl⟩ := hR.cursor hf
    refine ⟨_,.release hp,?_,hR.update f none,by simp [houts]⟩
    simp only [globalmemRelease]
    split_ifs <;> exact hmem
  | read f size copy =>
    obtain ⟨hsize,rfl⟩ := hc
    simp only [step, Option.map_eq_some_iff] at h
    obtain ⟨pos,hf,rfl⟩ := h
    obtain ⟨p,hp,rfl⟩ := hR.cursor hf
    obtain ⟨g',hread,hg⟩ := globalmemRead_span s.g p hsize
    rw [hread]
    refine ⟨_,.read hp,hg.trans hmem,hR.update f (some _),?_⟩
    simp [Sys.finish, houts, CursorArray.window, hmem]
  | write f size buf copy =>
    obtain ⟨hsize,rfl⟩ := hc
    simp only [step, Option.map_eq_some_iff] at h
    obtain ⟨pos,hf,rfl⟩ := h
    obtain ⟨p,hp,rfl⟩ := hR.cursor hf
    rw [globalmemWrite_span s.g p hsize]
    refine ⟨_,.write hp,?_,hR.update f (some _),by simp [Sys.finish, houts]⟩
    simp only [Sys.finish, hmem]
    exact CursorArray.byte_overwrite a (CursorArray.span_le p size) buf
  | llseek f offset orig =>
    simp only [step, Option.map_eq_some_iff] at h
    obtain ⟨pos,hf,rfl⟩ := h
    obtain ⟨p,hp,rfl⟩ := hR.cursor hf
    obtain ⟨q,hq⟩ | hq := globalmemLlseek_cases p offset orig
    · rw [hq]
      exact ⟨_,.seek q hp,hmem,hR.update f (some q),by simp [houts]⟩
    · rw [hq]
      refine ⟨_,.refuse hp,hmem,fun g => ?_,by simp [houts]⟩
      rw [← hf,Function.update_eq_self]
      exact hfpos g
  | ioctl f cmd current =>
    simp only [step, Option.map_eq_some_iff] at h
    obtain ⟨pos,hf,rfl⟩ := h
    obtain ⟨p,hp,rfl⟩ := hR.cursor hf
    unfold globalmemIoctl
    split_ifs with hclear hreg
    · subst hclear
      refine ⟨_,.clear hp,?_,hfpos,by simp [houts]⟩
      rw [CursorArray.byte_clear,hmem]
      funext i
      unfold blit CursorArray.byte
      by_cases hi : i < globalmemSize <;> simp [hi]
    · subst hreg
      exact ⟨_,.register hp,hmem,hfpos,by simp [houts]⟩
    · exact ⟨_,.reject hp hclear hreg,hmem,hfpos,by simp [houts]⟩

/-- globalmem refines an array of 4096 bytes with a cursor for each open file: the same results,
bytes and positions after every sequence of calls. -/
theorem globalmem_refines {calls : List Call} {s : Sys} (hvfs : ∀ c ∈ calls, c.vfs)
    (h : run (step 64) load calls = some s) :
    ∃ a, Path CursorArray.Step ⟨fun _ => 0,fun _ => none,[]⟩ calls a ∧ Represents s a :=
  run_simulation (fun c hc _ _ _ hR hstep => step_represents (hvfs c hc) hR hstep) h represents_load

/-- A write through one file, seen through another. -/
theorem globalmem_refines_two_files : ∃ calls s, run (step 64) load calls = some s ∧
    s.outs.getLast? = some ⟨2,[7,7]⟩ ∧
    ∃ a, Path CursorArray.Step ⟨fun _ => 0,fun _ => none,[]⟩ calls a ∧ Represents s a := by
  obtain ⟨s,hs,hp⟩ := exists_of_run_any (step 64) load
    [.open 1,.open 2,.llseek 1 4094 0,.write 1 5 (fun _ => 7) .done,.llseek 2 4094 1,.read 2 5 .done]
    (fun s => s.outs.getLast? = some ⟨2,[7,7]⟩) (by decide)
  simp only [decide_eq_true_eq] at hp
  exact ⟨_,s,hs,hp,globalmem_refines (by simp [Call.vfs]) hs⟩

end ExampleKernel.GlobalMem
