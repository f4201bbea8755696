import ExampleKernel.Foundation.Spacing
import ExampleKernel.Gpio.Led

/-! The debouncing of `gpio_irq_handler` over a whole run, while the `jiffies` it reads wrap around any
number of times. -/
namespace ExampleKernel.Gpio.Led
open ExampleKernel.Foundation

/-- A rising edge: the handler reads `jiffies` at the tick `e.first`, and where it goes on once more at
the tick `e.second`. The result says whether it went on. -/
def interrupt (w : ℕ) (s : State) (e : Event) : Option (State × Bool) :=
  (run (step w) s [.tick (e.first-s.jiffies),.irq]).bind fun s =>
    if s.handler = .idle then some (s,false)
    else (run (step w) s [.tick (e.second-e.first),.handler,.handler,.handler]).map fun s => (s,true)

def interrupts (w : ℕ) : State → List Event → Option (State × List (Event × Bool))
  | s, [] => some (s,[])
  | s, e::es =>
    (interrupt w s e).bind fun (t,verdict) => (interrupts w t es).map fun (u,verdicts) => (u,(e,verdict)::verdicts)

/-- Between two interrupts: the last accepted edge was recorded at the tick `last`. -/
structure Resting (w : ℕ) (s : State) (last : ℕ) : Prop where
  handler : s.handler = .idle
  oldJiffie : s.oldJiffie = jiffiesOf w last
  past : last ≤ s.jiffies
  inv : Inv s

/-- The debounce test compares the true distance. -/
theorem accepts_iff {w last : ℕ} {s : State} (hold : s.oldJiffie = jiffiesOf w last) (hpast : last ≤ s.jiffies)
    (hnear : s.jiffies < last+2^w) : accepts w s ↔ last+20 ≤ s.jiffies := by
  rw [accepts,hold,jiffiesOf,jiffiesOf,wrapped_sub hpast (by omega)]
  omega

/-- Where the handler goes on, its statements run to the end. -/
theorem handler_run {w : ℕ} {s : State} (h : s.handler = .storeJiffie) (n : ℕ) :
    run (step w) s [.tick n,.handler,.handler,.handler] = some {s with
      jiffies := s.jiffies+n
      oldJiffie := jiffiesOf w (s.jiffies+n)
      ledToggle := 0x01 ^^^ s.ledToggle
      gpio21 := gpioSetValue (0x01 ^^^ s.ledToggle)
      handler := .idle
      accepted := s.accepted+1
      lastWrite := none} := by
  simp [run, step, handlerStep, h]

theorem interrupt_spec {w last : ℕ} {s : State} {e : Event} (hs : Resting w s last) (hfirst : s.jiffies ≤ e.first)
    (hsecond : e.first ≤ e.second) (hnear : e.first < last+2^w) : ∃ t,
      interrupt w s e = some (t,decide (last+20 ≤ e.first)) ∧ t.jiffies ≤ e.second ∧
      Resting w t (if last+20 ≤ e.first then e.second else last) ∧
      t.accepted = s.accepted+if last+20 ≤ e.first then 1 else 0 := by
  obtain ⟨hidle,hold,hpast,hinv⟩ := hs
  have htick : s.jiffies+(e.first-s.jiffies) = e.first := Nat.add_sub_cancel' hfirst
  let s₁ : State := {s with jiffies := e.first}
  have hs₁ : step w s (.tick (e.first-s.jiffies)) = some s₁ := by simp only [step, htick, s₁]
  have hirq : step w s₁ .irq = some (gpioIrqHandler w s₁) := if_pos hidle
  have hinv₁ : Inv (gpioIrqHandler w s₁) := inv_step hirq (inv_step hs₁ hinv)
  have hstart : run (step w) s [.tick (e.first-s.jiffies),.irq] = some (gpioIrqHandler w s₁) :=
    run_cons_eq_some.mpr ⟨_,hs₁,run_cons_eq_some.mpr ⟨_,hirq,rfl⟩⟩
  have htest : accepts w s₁ ↔ last+20 ≤ e.first := accepts_iff hold (hpast.trans hfirst) hnear
  unfold interrupt
  rw [hstart,Option.bind_some]
  by_cases hgap : last+20 ≤ e.first
  · have hgo : gpioIrqHandler w s₁ = {s₁ with handler := .storeJiffie} := if_pos (htest.mpr hgap)
    rw [hgo] at hinv₁ ⊢
    have hrun := handler_run (w := w) (s := {s₁ with handler := .storeJiffie}) rfl (e.second-e.first)
    have hsum : e.first+(e.second-e.first) = e.second := Nat.add_sub_cancel' hsecond
    simp only [hrun, hgap, reduceCtorEq, if_false, if_true, Option.map_some, s₁, hsum, decide_true]
    refine ⟨_,rfl,le_rfl,⟨rfl,rfl,le_rfl,?_⟩,rfl⟩
    have hlast := run_invariant (fun _ _ _ ht => inv_step ht) hrun hinv₁
    simpa only [s₁, hsum] using hlast
  · have hstop : gpioIrqHandler w s₁ = s₁ := if_neg fun hacc => hgap (htest.mp hacc)
    rw [hstop] at hinv₁ ⊢
    simp only [hgap, decide_false]
    exact ⟨s₁,by rw [if_pos hidle],hsecond,⟨hidle,hold,hpast.trans hfirst,hinv₁⟩,rfl⟩

theorem interrupts_spec {w last : ℕ} {s : State} {es : List Event} (hs : Resting w s last)
    (hchron : Chronological s.jiffies es) (hnear : Recent (2^w) 20 last es) : ∃ t last',
      interrupts w s es = some (t,greedy 20 last es) ∧ Resting w t last' ∧
      t.accepted = s.accepted+(accepted (greedy 20 last es)).length := by
  induction es generalizing s last with
  | nil => exact ⟨s,last,rfl,hs,rfl⟩
  | cons e es ih =>
    obtain ⟨hfirst,hsecond,hlater⟩ := hchron
    obtain ⟨hlt,hnear'⟩ := hnear
    obtain ⟨t,ht,hjiffies,hrest,hcount⟩ := interrupt_spec hs hfirst hsecond hlt
    obtain ⟨u,last',hu,hulast,hucount⟩ := ih hrest (hlater.mono hjiffies) hnear'
    refine ⟨u,last',?_,hulast,?_⟩
    · rw [interrupts,ht,Option.bind_some]
      simp only [hu, Option.map_some, greedy]
      split_ifs with hgap <;> simp [hgap]
    · rw [hucount,hcount,greedy]
      split_ifs with hgap
      · rw [accepted_true,List.length_cons]
        omega
      · rw [accepted_false]
        omega

/-- The debouncing decides as if the clock never wrapped: for every width of `unsigned long` and every
sequence of edges, the handler accepts the edges that the greedy rule accepts, no two of them are
less than 20 ticks apart, and `led_toggle` is the parity of their number. -/
theorem debounce_exact (w : ℕ) {es : List Event} (hchron : Chronological 0 es) (hnear : Recent (2^w) 20 0 es) :
    ∃ s verdicts, interrupts w loaded es = some (s,verdicts) ∧ verdicts = greedy 20 0 es ∧
      (accepted verdicts).Pairwise (fun d e => d.second+20 ≤ e.first) ∧
      s.ledToggle.toNat = (accepted verdicts).length%2 := by
  obtain ⟨s,last,hs,⟨hidle,-,-,hinv⟩,hcount⟩ := interrupts_spec (s := loaded) ⟨rfl,rfl,le_rfl,inv_loaded⟩ hchron hnear
  refine ⟨s,_,hs,rfl,greedy_spaced hchron le_rfl,?_⟩
  have hled := hinv.ledToggle
  rw [hidle,State.commanded,hcount] at hled
  rw [hled]
  simp only [loaded, Nat.zero_add, reduceCtorEq, decide_false, Bool.xor_false, decide_eq_true_eq]
  split_ifs with hodd
  · exact hodd.symm
  · exact (Nat.mod_two_ne_one.mp hodd).symm

/-- Three edges around the first wrap of a counter of 32 bits, the second of them a bounce. -/
theorem debounce_exact_at_wrap : ∃ s verdicts,
    interrupts 32 loaded [⟨4294967290,4294967295⟩,⟨4294967300,4294967300⟩,⟨4294967316,4294967317⟩] = some (s,verdicts) ∧
    verdicts.map Prod.snd = [true,false,true] ∧ s.ledToggle.toNat = 0 := by
  let es : List Event := [⟨4294967290,4294967295⟩,⟨4294967300,4294967300⟩,⟨4294967316,4294967317⟩]
  have hchron : Chronological 0 es := by simp [es, Chronological]
  have hnear : Recent (2^32) 20 0 es := by simp [es, Recent]
  obtain ⟨s,verdicts,hs,hverdicts,-,hled⟩ := debounce_exact 32 hchron hnear
  subst hverdicts
  exact ⟨s,_,hs,by decide,hled.trans (by decide)⟩

end ExampleKernel.Gpio.Led
