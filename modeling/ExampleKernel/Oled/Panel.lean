import ExampleKernel.Foundation.Raster

/-! The SSD1306 controller in horizontal addressing mode: its address window, its address pointer,
its display RAM and the commands that move them. -/
namespace ExampleKernel.Oled
open ExampleKernel.Foundation

/-- Cells are pairs of a page and a column. `command` is a command whose arguments are not complete,
`stored` the history of the data bytes with the cells they went to. -/
structure Panel where
  ram : ℕ × ℕ → UInt8
  window : Window
  pointer : ℕ × ℕ
  command : Option (UInt8 × List UInt8)
  stored : List ((ℕ × ℕ) × UInt8)

/-- The whole screen: 8 pages of 128 columns. -/
def fullWindow : Window where
  rowStart := 0
  rowEnd := 7
  colStart := 0
  colEnd := 127

/-- How many arguments a command takes. -/
def arity (op : UInt8) : ℕ :=
  if op ∈ [0x26,0x27] then 6
  else if op ∈ [0x29,0x2A] then 5
  else if op ∈ [0x21,0x22,0xA3] then 2
  else if op ∈ [0x20,0x81,0x8D,0xA8,0xD3,0xD5,0xD9,0xDA,0xDB] then 1
  else 0

namespace Panel

/-- The RST line is low; the RAM stays as it is. -/
def reset (p : Panel) : Panel := {p with
  window := fullWindow
  pointer := (0,0)
  command := none}

/-- A complete command. Only the two address commands concern the window and the pointer. The others have no
effect here: not the addressing mode (0x20), not the scrolls (0x26, 0x27, 0x29, 0x2A, 0x2E, 0x2F, 0xA3), whatever
they make of the RAM, and not what the glass shows of it (start line, offset, remapping, contrast, on and off). -/
def execute (p : Panel) (op : UInt8) (args : List UInt8) : Panel :=
  match args with
  | [a,b] =>
    if op = 0x21 then {p with
      window := {p.window with colStart := a.toNat, colEnd := b.toNat}
      pointer := (p.pointer.1,a.toNat)}
    else if op = 0x22 then {p with
      window := {p.window with rowStart := a.toNat, rowEnd := b.toNat}
      pointer := (a.toNat,p.pointer.2)}
    else p
  | _ => p

def accept (p : Panel) (op : UInt8) (args : List UInt8) : Panel :=
  if args.length < arity op then {p with command := some (op,args)}
  else {p.execute op args with command := none}

/-- A command byte begins a command or continues the one before. -/
def receive (p : Panel) (b : UInt8) : Panel :=
  match p.command with
  | none => p.accept b []
  | some (op,args) => p.accept op (args ++ [b])

/-- A data byte is stored at the pointer, which then moves on in the window. -/
def store (p : Panel) (b : UInt8) : Panel := {p with
  ram := Function.update p.ram p.pointer b
  pointer := p.window.next p.pointer
  stored := p.stored ++ [(p.pointer,b)]}

/-- A byte from the bus, command or data. -/
def take : Bool → Panel → UInt8 → Panel
  | true => receive
  | false => store

theorem accept_complete (p : Panel) {op : UInt8} {args : List UInt8} (hlen : args.length = arity op)
    (haddr : op ≠ 0x21 ∧ op ≠ 0x22) : p.accept op args = {p with command := none} := by
  have hexec : p.execute op args = p := by
    unfold execute
    split
    · rw [if_neg haddr.1,if_neg haddr.2]
    · rfl
  rw [accept,if_neg hlen.not_lt,hexec]

theorem receive_args {p : Panel} {op : UInt8} {xs ys : List UInt8} (hp : p.command = some (op,xs))
    (hys : ys ≠ []) (hlen : (xs ++ ys).length = arity op) (haddr : op ≠ 0x21 ∧ op ≠ 0x22) :
    ys.foldl receive p = {p with command := none} := by
  induction ys generalizing p xs with
  | nil => contradiction
  | cons y ys ih =>
    have hreceive : p.receive y = p.accept op (xs ++ [y]) := by rw [receive,hp]
    rw [List.foldl_cons,hreceive]
    cases ys with
    | nil => exact p.accept_complete hlen haddr
    | cons y' ys =>
      have hlt : (xs ++ [y]).length < arity op := by
        simp only [← hlen, List.length_append, List.length_cons, List.length_nil]
        omega
      rw [accept,if_pos hlt]
      exact ih rfl (List.cons_ne_nil _ _) (by simpa using hlen)

theorem idle {p : Panel} (hp : p.command = none) : {p with command := none} = p := by
  cases p
  cases hp
  rfl

/-- A complete command other than the address commands changes nothing here. -/
theorem receive_complete {p : Panel} (hp : p.command = none) {op : UInt8} (args : List UInt8)
    (hlen : args.length = arity op) (haddr : op ≠ 0x21 ∧ op ≠ 0x22) : (op::args).foldl receive p = p := by
  have hreceive : p.receive op = p.accept op [] := by rw [receive,hp]
  rw [List.foldl_cons,hreceive]
  cases args with
  | nil => exact (p.accept_complete hlen haddr).trans (idle hp)
  | cons a as =>
    have hlt : ([] : List UInt8).length < arity op := by rw [← hlen]; exact Nat.succ_pos _
    rw [accept,if_pos hlt,receive_args rfl (List.cons_ne_nil _ _) hlen haddr]
    exact idle hp

@[simp] theorem store_window (p : Panel) (b : UInt8) : (p.store b).window = p.window := rfl

@[simp] theorem store_command (p : Panel) (b : UInt8) : (p.store b).command = p.command := rfl

@[simp] theorem store_pointer (p : Panel) (b : UInt8) :
    (p.store b).pointer = p.window.next p.pointer := rfl

section StoreAll
variable (p : Panel) (bs : List UInt8)

@[simp] theorem storeAll_window : (bs.foldl store p).window = p.window := by
  induction bs generalizing p with
  | nil => rfl
  | cons b bs ih => exact (ih (p.store b)).trans (store_window p b)

@[simp] theorem storeAll_command : (bs.foldl store p).command = p.command := by
  induction bs generalizing p with
  | nil => rfl
  | cons b bs ih => exact (ih (p.store b)).trans (store_command p b)

theorem storeAll_pointer : (bs.foldl store p).pointer = p.window.next^[bs.length] p.pointer := by
  induction bs generalizing p with
  | nil => rfl
  | cons b bs ih => exact ih (p.store b)

/-- Filling a run of cells puts the byte in those passed and leaves it in those that held it. -/
theorem fill_ram_iff (b : UInt8) (n : ℕ) (c : ℕ × ℕ) : ((List.replicate n b).foldl store p).ram c = b ↔
    (∃ i < n, p.window.next^[i] p.pointer = c) ∨ p.ram c = b := by
  induction n generalizing p with
  | zero => simp
  | succ n ih =>
    rw [List.replicate_succ,List.foldl_cons,ih]
    have hpassed : (∃ i < n+1, p.window.next^[i] p.pointer = c) ↔
        p.pointer = c ∨ ∃ i < n, p.window.next^[i] (p.window.next p.pointer) = c := by
      rw [Nat.exists_lt_succ_left]
      rfl
    rw [hpassed,store_window,store_pointer]
    by_cases hc : c = p.pointer
    · simp [store, hc]
    · simp [store, Function.update_of_ne hc, Ne.symm hc]

end StoreAll

/-- Consecutive cells of one page with the bytes they get. -/
def cells (page : ℕ) : ℕ → List UInt8 → List ((ℕ × ℕ) × UInt8)
  | _, [] => []
  | col, b::bs => ((page,col),b) :: cells page (col+1) bs

/-- Bytes that fit into the rest of the row land side by side in it. -/
theorem storeAll_stored {p : Panel} {bs : List UInt8} (h : p.pointer.2+bs.length ≤ p.window.colEnd+1) :
    (bs.foldl store p).stored = p.stored ++ cells p.pointer.1 p.pointer.2 bs := by
  induction bs generalizing p with
  | nil => exact (List.append_nil _).symm
  | cons b bs ih =>
    cases bs with
    | nil => rfl
    | cons b' bs =>
      have hnext : p.window.next p.pointer = (p.pointer.1,p.pointer.2+1) :=
        if_neg (by simp only [List.length_cons] at h; omega)
      rw [List.foldl_cons,ih (by simp only [store_pointer, hnext, store_window, List.length_cons] at h ⊢; omega)]
      simp only [hnext, store, cells, List.append_assoc, List.singleton_append]

end Panel

end ExampleKernel.Oled
