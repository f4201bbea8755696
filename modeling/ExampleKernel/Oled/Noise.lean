import ExampleKernel.Oled.Modes
import ExampleKernel.Oled.Text

/-! Bytes that the bus loses or garbles. Neither driver looks at the result of a transfer, and both go on;
two changes of line put the controller and the counters in step again, unless the noise has changed the
addressing mode. -/
namespace ExampleKernel.Oled
open ExampleKernel.Foundation

namespace Panel

/-- A command that has begun lacks arguments. Nothing else is known of a controller after noise. -/
def Sane (p : Panel) : Prop := ∀ op args, p.command = some (op,args) → args.length < arity op

/-- How many arguments the controller waits for. -/
def missing (p : Panel) : ℕ :=
  match p.command with
  | none => 0
  | some (op,args) => arity op-args.length

/-- The number of arguments waited for after a command byte. -/
def await (n : ℕ) (b : UInt8) : ℕ := if n = 0 then arity b else n-1

theorem arity_le (op : UInt8) : arity op ≤ 6 := by
  unfold arity
  split_ifs <;> decide

theorem missing_le (p : Panel) : p.missing ≤ 6 := by
  unfold missing
  split
  · exact Nat.zero_le _
  · exact (Nat.sub_le _ _).trans (arity_le _)

theorem Sane.command_eq_none {p : Panel} (hp : p.Sane) (h : p.missing = 0) : p.command = none := by
  cases hcommand : p.command with
  | none => rfl
  | some c =>
    have hlt := hp c.1 c.2 hcommand
    simp only [missing, hcommand] at h
    omega

theorem accept_sane (p : Panel) (op : UInt8) (args : List UInt8) : (p.accept op args).Sane := by
  intro op' args' h
  unfold accept at h
  split_ifs at h with hlen
  cases h
  exact hlen

theorem accept_missing (p : Panel) (op : UInt8) (args : List UInt8) :
    (p.accept op args).missing = arity op-args.length := by
  unfold accept
  split_ifs with hlen
  · rfl
  · exact (Nat.sub_eq_zero_of_le (not_lt.mp hlen)).symm

/-- The controller parses its command bytes by counting them. -/
theorem receive_missing {p : Panel} (hp : p.Sane) (b : UInt8) : (p.receive b).missing = await p.missing b := by
  cases hcommand : p.command with
  | none =>
    simp only [receive, missing, hcommand, await, if_true]
    exact accept_missing p b []
  | some c =>
    have hlt := hp c.1 c.2 hcommand
    simp only [receive, missing, hcommand, await]
    rw [if_neg (by omega)]
    refine (accept_missing p c.1 (c.2 ++ [b])).trans ?_
    rw [List.length_append,List.length_singleton]
    omega

theorem receive_sane (p : Panel) (b : UInt8) : (p.receive b).Sane := by
  unfold receive
  split
  · exact accept_sane _ _ _
  · exact accept_sane _ _ _

theorem take_sane {p : Panel} (hp : p.Sane) (isCmd : Bool) (b : UInt8) : (take isCmd p b).Sane := by
  cases isCmd with
  | true => exact receive_sane p b
  | false => exact hp

theorem takes_sane {p : Panel} (hp : p.Sane) (isCmd : Bool) (bs : List UInt8) : (bs.foldl (take isCmd) p).Sane := by
  induction bs generalizing p with
  | nil => exact hp
  | cons b bs ih => exact ih (take_sane hp isCmd b)

theorem receives_missing {p : Panel} (hp : p.Sane) (bs : List UInt8) :
    (bs.foldl receive p).missing = bs.foldl await p.missing := by
  induction bs generalizing p with
  | nil => rfl
  | cons b bs ih => rw [List.foldl_cons,List.foldl_cons,ih (receive_sane p b),receive_missing hp]

/-- The six bytes of a change of line complete whatever command has begun; those that are not taken for its
arguments are commands of their own. -/
theorem newline_awaits_nothing {n : ℕ} (hn : n ≤ 6) {line : UInt8} (hline : line ≤ 7) :
    [0x21,0,127,0x22,line,7].foldl await n = 0 := by
  have harity : arity line = 0 := by
    have hne : ∀ op : UInt8, 7 < op → line ≠ op := by
      rintro op hop rfl
      exact absurd hline (UInt8.not_le.mpr hop)
    unfold arity
    rw [if_neg,if_neg,if_neg,if_neg]
    all_goals
      simp only [List.mem_cons, List.not_mem_nil, or_false, not_or]
      repeat' constructor
      all_goals exact hne _ (by decide)
  interval_cases n <;> simp [await, harity] <;> decide

end Panel

namespace Spi

/-- The controller runs. -/
structure Awake (s : Ssd1306 Display) : Prop where
  rst : s.bus.rst = true
  sane : s.bus.panel.Sane

theorem Ready.awake {s : Ssd1306 Display} (hs : Ready s) : Awake s :=
  ⟨hs.rst,fun _ _ h => absurd (hs.command.symm.trans h) (by simp)⟩

/-- Whatever was left of a command, after a change of line the controller waits for a command. -/
theorem goToNextLine_ready {s : Ssd1306 Display} (hs : Awake s) : Ready (goToNextLine Display.receive s) := by
  have hrange : (s.lineNum+1) &&& maxLine ≤ maxLine ∧ (0 : UInt8) < maxSeg := ⟨and_maxLine_le _,by decide⟩
  have heq : goToNextLine Display.receive s = writes Display.receive
      {s with lineNum := (s.lineNum+1) &&& maxLine, cursorPos := 0} true
        [0x21,0,127,0x22,(s.lineNum+1) &&& maxLine,7] := by
    rw [goToNextLine,setCursor,if_pos hrange]
    rfl
  obtain ⟨-,-,hrst,hpanel⟩ := writes_panel
    (s := {s with lineNum := (s.lineNum+1) &&& maxLine, cursorPos := 0}) hs.rst true
      [0x21,0,127,0x22,(s.lineNum+1) &&& maxLine,7]
  rw [heq]
  refine ⟨hrst.trans hs.rst,?_⟩
  rw [hpanel]
  refine (Panel.takes_sane hs.sane true _).command_eq_none ?_
  exact (Panel.receives_missing hs.sane _).trans
    (Panel.newline_awaits_nothing (Panel.missing_le _) (and_maxLine_le _))

theorem keeps_awake : Keeps Display.receive fun d => d.rst = true ∧ d.panel.Sane := by
  rintro d isCmd data ⟨hrst,hsane⟩
  have hpanel := write_panel (s := ⟨0,0,d⟩) data hrst isCmd
  have hrst' := (write_rst (s := ⟨0,0,d⟩) data isCmd).trans hrst
  have hsane' : (write Display.receive (⟨0,0,d⟩ : Ssd1306 Display) isCmd data).bus.panel.Sane := by
    rw [hpanel]
    exact Panel.take_sane hsane isCmd data
  exact ⟨hrst',hsane'⟩

theorem columns_ready {s : Ssd1306 Display} (hs : Ready s) (bs : List UInt8) :
    Ready (columns Display.receive s bs) := by
  induction bs generalizing s with
  | nil => exact hs
  | cons b bs ih =>
    have hpanel := write_panel b hs.rst false
    exact ih ⟨(write_rst b false).trans hs.rst,(congrArg Panel.command hpanel).trans hs.command⟩

theorem printChar_ready {s t : Ssd1306 Display} (hs : Ready s) {c : UInt8} (hc : Printable c)
    (h : printChar Display.receive s c = some t) : Ready t := by
  by_cases hnl : c = newline
  · subst hnl
    rw [printChar_newline] at h
    exact Option.some.inj h ▸ (goToNextLine_inSync hs).ready
  · obtain ⟨row,hrow,hlen,-⟩ := font_row hc hnl
    rw [printChar_eq_columns Display.receive s hnl hrow hlen] at h
    refine Option.some.inj h ▸ columns_ready ?_ _
    split_ifs
    · exact (goToNextLine_inSync hs).ready
    · exact hs

/-- What is known after so many changes of line. -/
def Level : ℕ → Ssd1306 Display → Prop
  | 0 => Awake
  | 1 => Ready
  | _ => InSync

variable {s : Ssd1306 Display} {n : ℕ}

theorem Level.awake (h : Level n s) : Awake s := by
  obtain _ | _ | n := n
  · exact h
  · exact Ready.awake h
  · exact Ready.awake (InSync.ready h)

theorem goToNextLine_level (h : Level n s) : Level (n+1) (goToNextLine Display.receive s) := by
  obtain _ | _ | n := n
  · exact goToNextLine_ready h
  · exact goToNextLine_inSync h
  · exact goToNextLine_inSync (InSync.ready h)

/-- The changes of line that a call asks for. -/
def Op.newlines : Op → ℕ
  | .goToNextLine => 1
  | .printChar c => if c = newline then 1 else 0
  | .string str => str.count newline
  | _ => 0

theorem printChar_level (hs : Level n s) {c : UInt8} (hc : Printable c) :
    ∃ t, printChar Display.receive s c = some t ∧ Level (n+if c = newline then 1 else 0) t := by
  by_cases hnl : c = newline
  · subst hnl
    exact ⟨_,printChar_newline Display.receive s,goToNextLine_level hs⟩
  · obtain ⟨t,ht⟩ := printChar_total Display.receive s hc
    rw [if_neg hnl]
    refine ⟨t,ht,?_⟩
    obtain _ | _ | n := n
    · obtain ⟨hrst,hsane⟩ := printChar_kept keeps_awake ⟨hs.awake.rst,hs.awake.sane⟩ ht
      exact ⟨hrst,hsane⟩
    · exact printChar_ready hs hc ht
    · obtain ⟨u,hu,hsync⟩ := printChar_inSync hs hc
      cases hu.symm.trans ht
      exact hsync

theorem string_level (hs : Level n s) {str : List UInt8} (hstr : ∀ c ∈ str, Printable c) :
    ∃ t, string Display.receive s str = some t ∧ Level (n+str.count newline) t := by
  induction str generalizing s n with
  | nil => exact ⟨s,rfl,hs⟩
  | cons c str ih =>
    have hc := hstr c List.mem_cons_self
    obtain ⟨u,hu,hulevel⟩ := printChar_level hs hc
    obtain ⟨t,ht,htlevel⟩ := ih hulevel fun d hd => hstr d (List.mem_cons_of_mem _ hd)
    refine ⟨t,?_,?_⟩
    · rw [string,if_neg (ne_zero_of_printable hc),hu]
      exact ht
    · rw [List.count_cons,Nat.add_comm (str.count newline),← Nat.add_assoc]
      simpa only [beq_iff_eq] using htlevel

/-- A call without a change of line of its own. -/
theorem exec_ready (hs : Ready s) {op : Op} (hop : op.Tracked) {t : Ssd1306 Display}
    (h : exec Display.receive s op = some t) (hchar : ∀ c, op ≠ .printChar c) (hstr : ∀ str, op ≠ .string str) :
    Ready t := by
  have hstill : ∀ {u}, Still s u → Ready u := fun hu => ⟨hu.rst.trans hs.rst,by rw [hu.panel]; exact hs.command⟩
  cases op with
  | setCursor line col =>
    cases h
    by_cases hrange : line ≤ maxLine ∧ col < maxSeg
    · exact (moved_inSync hs hrange).ready
    · rwa [setCursor,if_neg hrange]
  | goToNextLine => cases h; exact (goToNextLine_inSync hs).ready
  | printChar c => exact absurd rfl (hchar c)
  | string str => exact absurd rfl (hstr str)
  | invertDisplay b => cases h; exact hstill (invertDisplay_still hs b)
  | setBrightness v => cases h; exact hstill (setBrightness_still hs v)
  | startScrollHorizontal b first last => cases h; exact hstill (startScrollHorizontal_still hs b first last)
  | startScrollVerticalHorizontal b first last area rows =>
    cases h; exact hstill (startScrollVerticalHorizontal_still hs b first last area rows)
  | deactivateScroll => cases h; exact hstill (deactivateScroll_still hs)
  | fill data => exact hop.elim
  | clearDisplay =>
    rw [exec,clearDisplay,fill_eq_writes] at h
    exact Option.some.inj h ▸ (screen_inSync hs List.length_replicate).ready
  | printLogo =>
    rw [exec,printLogo_eq_writes] at h
    exact Option.some.inj h ▸ (screen_inSync hs etxLogo_length).ready

theorem exec_level (hs : Level n s) {op : Op} (hop : op.Tracked) :
    ∃ t, exec Display.receive s op = some t ∧ Level (n+op.newlines) t := by
  by_cases hchar : ∃ c, op = .printChar c
  · obtain ⟨c,rfl⟩ := hchar
    exact printChar_level hs hop
  by_cases hstr : ∃ str, op = .string str
  · obtain ⟨str,rfl⟩ := hstr
    exact string_level hs hop
  by_cases hline : op = .goToNextLine
  · subst hline
    exact ⟨_,rfl,goToNextLine_level hs⟩
  have hzero : op.newlines = 0 := by
    cases op <;> simp_all [Op.newlines]
  have htotal : ∃ t, exec Display.receive s op = some t := by
    cases op with
    | printChar c => exact absurd ⟨c,rfl⟩ hchar
    | string str => exact absurd ⟨str,rfl⟩ hstr
    | printLogo => exact ⟨_,printLogo_eq_writes Display.receive s⟩
    | _ => exact ⟨_,rfl⟩
  obtain ⟨t,ht⟩ := htotal
  rw [hzero]
  refine ⟨t,ht,?_⟩
  obtain _ | _ | n := n
  · obtain ⟨hrst,hsane⟩ := exec_kept keeps_awake ⟨hs.awake.rst,hs.awake.sane⟩ ht
    exact ⟨hrst,hsane⟩
  · exact exec_ready hs hop ht (fun c h => hchar ⟨c,h⟩) fun str h => hstr ⟨str,h⟩
  · obtain ⟨u,hu,hsync⟩ := exec_inSync hs hop
    cases hu.symm.trans ht
    exact hsync

theorem run_level {ops : List Op} (hs : Level n s) (hops : ∀ op ∈ ops, op.Tracked) :
    ∃ t, run (exec Display.receive) s ops = some t ∧ Level (n+(ops.map Op.newlines).sum) t := by
  induction ops generalizing s n with
  | nil => exact ⟨s,rfl,hs⟩
  | cons op ops ih =>
    obtain ⟨u,hu,hulevel⟩ := exec_level hs (hops op List.mem_cons_self)
    obtain ⟨t,ht,htlevel⟩ := ih hulevel fun o ho => hops o (List.mem_cons_of_mem _ ho)
    refine ⟨t,run_cons_eq_some.mpr ⟨u,hu,ht⟩,?_⟩
    rwa [List.map_cons,List.sum_cons,← Nat.add_assoc]

theorem run_healed {ops : List Op} (hs : Awake s) (hops : ∀ op ∈ ops, op.Tracked)
    (hlines : 2 ≤ (ops.map Op.newlines).sum) : ∃ t, run (exec Display.receive) s ops = some t ∧ InSync t := by
  obtain ⟨t,ht,hlevel⟩ := run_level (n := 0) hs hops
  refine ⟨t,ht,?_⟩
  obtain ⟨k,hk⟩ := Nat.exists_eq_add_of_le hlines
  rw [hk,Nat.zero_add,Nat.add_comm] at hlevel
  exact hlevel

end Spi

theorem Moded.takes_sane {m : Moded} (hm : m.panel.Sane) (other : Bool → Panel → UInt8 → Panel) (isCmd : Bool)
    (bs : List UInt8) : (bs.foldl (Moded.take other isCmd) m).panel.Sane := by
  induction bs generalizing m with
  | nil => exact hm
  | cons b bs ih =>
    refine ih fun op args h => ?_
    rw [Moded.take_command] at h
    exact Panel.take_sane hm isCmd b op args h

namespace I2c

theorem message_sane {m : Moded} (hm : m.panel.Sane) (other : Bool → Panel → UInt8 → Panel) (sent : List UInt8) :
    (m.message other sent).panel.Sane := by
  cases sent with
  | nil => exact hm
  | cons control bs => exact Moded.takes_sane hm other _ bs

/-- Whatever arrives, the controller stays sane. -/
theorem carries_sane (other : Bool → Panel → UInt8 → Panel) :
    Carries (fun (_ : Unit) _ => ()) (Noisy.receive other) fun _ b => b.moded.panel.Sane := by
  intro _ b isCmd data hsane
  unfold Noisy.receive
  split
  · exact message_sane hsane other _
  · exact message_sane hsane other _

/-- The calls with characters of the font, other than the fill. -/
def Op.Tracked (op : Op) : Prop := op.spi.Tracked

def Op.newlines (op : Op) : ℕ := op.spi.newlines

theorem run_sane {other : Bool → Panel → UInt8 → Panel} {ops : List Op} {t u : Ssd1306 Noisy}
    (ht : t.bus.moded.panel.Sane) (h : run (exec (Noisy.receive other)) t ops = some u) :
    u.bus.moded.panel.Sane := by
  have hstart : Same (fun (_ : Unit) (b : Noisy) => b.moded.panel.Sane) ⟨t.lineNum,t.cursorPos,()⟩ t := ⟨rfl,rfl,ht⟩
  have hrun := run_rel (fun _ _ op hs => exec_same (carries_sane other) hs op) hstart ops
  rw [h] at hrun
  obtain ⟨s,-,hsame⟩ := exists_of_rel_right hrun
  exact hsame.bus

end I2c

section Follows
variable {ms : List UInt8} {p q : Panel} {m m' : Moded}

/-- From where it is now, a controller is followed with the modes it has been in. -/
theorem Follows.again (h : Follows ms p m) : Follows m.modes p m := ⟨List.Subset.refl _,h.panel⟩

/-- What the followed panel shows is shown while the controller stays in horizontal mode. -/
theorem Follows.shown_text (h : Follows ms p m) (h' : Follows m.modes q m') {line cursor line' cursor' : UInt8}
    {str : List UInt8} (hview : shown q line' cursor' = (shown p line cursor).text str) (hstraight : m'.Straight) :
    shown m'.panel line' cursor' = (shown m.panel line cursor).text str := by
  rw [← h'.panel hstraight,← h.panel (hstraight.of_subset h'.modes)]
  exact hview

end Follows

/-- Noise heals. In whatever state a running controller is, after any calls with two changes of line and no
fill every text is written where the layout has it from the counters, unless the controller has taken
another addressing mode; so it is on the I2C bus after any calls during which any messages were lost or
garbled. What a scroll, a remapping or a start line makes of the RAM on the glass is left out. -/
theorem noise_heals (other : Bool → Panel → UInt8 → Panel) :
    (∀ (s : Spi.Ssd1306 Spi.ModedDisplay) (ops : List Spi.Op), s.bus.rst = true → s.bus.moded.panel.Sane →
      (∀ op ∈ ops, op.Tracked) → 2 ≤ (ops.map Spi.Op.newlines).sum →
      ∃ t, run (Spi.exec (Spi.ModedDisplay.receive other)) s ops = some t ∧
        ∀ str, (∀ c ∈ str, Spi.Printable c) → ∃ u, Spi.string (Spi.ModedDisplay.receive other) t str = some u ∧
          (u.bus.moded.Straight → shown u.bus.moded.panel u.lineNum u.cursorPos =
            (shown t.bus.moded.panel t.lineNum t.cursorPos).text str)) ∧
    (∀ (r s : I2c.Ssd1306 I2c.Noisy) (before ops : List I2c.Op), r.bus.moded.panel.Sane →
      run (I2c.exec (I2c.Noisy.receive other)) r before = some s → s.bus.noise = [] →
      (∀ op ∈ ops, op.Tracked) → 2 ≤ (ops.map I2c.Op.newlines).sum →
      ∃ t, run (I2c.exec (I2c.Noisy.receive other)) s ops = some t ∧
        ∀ str, (∀ c ∈ str, Spi.Printable c) → ∃ u, I2c.string (I2c.Noisy.receive other) t str = some u ∧
          (u.bus.moded.Straight → shown u.bus.moded.panel u.lineNum u.cursorPos =
            (shown t.bus.moded.panel t.lineNum t.cursorPos).text str)) := by
  constructor
  · intro s ops hrst hsane hops hlines
    have hawake : Spi.Awake ⟨s.lineNum,s.cursorPos,⟨s.bus.moded.panel,true,true⟩⟩ := ⟨rfl,hsane⟩
    have hstart : Spi.Alike (fun (d : Spi.Display) b => (d.rst = true ∧ b.rst = true) ∧ Follows _ d.panel b.moded)
        ⟨s.lineNum,s.cursorPos,⟨s.bus.moded.panel,true,true⟩⟩ s := ⟨rfl,rfl,⟨rfl,hrst⟩,follows_refl _⟩
    obtain ⟨v,hv,hsync⟩ := Spi.run_healed hawake hops hlines
    have hrun := Spi.run_alike (Spi.conveys_follows other _) hstart ops
    rw [hv] at hrun
    obtain ⟨t,ht,hline,hcursor,hup,hfollows⟩ := exists_of_rel hrun
    refine ⟨t,ht,fun str hstr => ?_⟩
    obtain ⟨w,hw,hview⟩ := Spi.string_view hsync hstr
    have hrel := Spi.string_alike (Spi.conveys_follows other _) ⟨hline,hcursor,hup,hfollows.again⟩ str
    rw [hw] at hrel
    obtain ⟨u,hu,hline',hcursor',-,hfollows'⟩ := exists_of_rel hrel
    rw [Spi.view,Spi.view,hline,hcursor,hline',hcursor'] at hview
    exact ⟨u,hu,hfollows.shown_text hfollows' hview⟩
  · intro r s before ops hr hbefore hquiet hops hlines
    have hawake : Spi.Awake ⟨s.lineNum,s.cursorPos,⟨s.bus.moded.panel,true,true⟩⟩ :=
      ⟨rfl,I2c.run_sane hr hbefore⟩
    have hstart : I2c.Same (fun (d : Spi.Display) b => (d.rst = true ∧ b.noise = []) ∧ Follows _ d.panel b.moded)
        ⟨s.lineNum,s.cursorPos,⟨s.bus.moded.panel,true,true⟩⟩ s := ⟨rfl,rfl,⟨rfl,hquiet⟩,follows_refl _⟩
    have htracked : ∀ op ∈ ops.map I2c.Op.spi, op.Tracked := List.forall_mem_map.mpr hops
    obtain ⟨v,hv,hsync⟩ := Spi.run_healed hawake htracked (by rwa [List.map_map])
    have hrun := run_rel (fun _ _ op hs => I2c.exec_same (I2c.carries_follows other _) hs op) hstart ops
    rw [hv] at hrun
    obtain ⟨t,ht,hline,hcursor,hup,hfollows⟩ := exists_of_rel hrun
    refine ⟨t,ht,fun str hstr => ?_⟩
    obtain ⟨w,hw,hview⟩ := Spi.string_view hsync hstr
    have hrel := I2c.string_same (I2c.carries_follows other _) ⟨hline,hcursor,hup,hfollows.again⟩ str
    rw [hw] at hrel
    obtain ⟨u,hu,hline',hcursor',-,hfollows'⟩ := exists_of_rel hrel
    rw [Spi.view,Spi.view,hline,hcursor,hline',hcursor'] at hview
    exact ⟨u,hu,hfollows.shown_text hfollows' hview⟩

/-- One message of `SSD1306_SetBrightness` is lost, of the other only the control byte arrives, and a scroll
command has begun before. The controller stays in horizontal mode. -/
theorem noise_heals_half_command : ∃ s t u,
    run (I2c.exec (I2c.Noisy.receive fun _ p _ => p)) ⟨3,200,⟨⟨⟨fun _ => 0xFF,⟨2,5,60,70⟩,(4,66),
      some (0x26,[9]),[]⟩,[0]⟩,[fun _ => [],List.take 1]⟩⟩ [.setBrightness 7] = some s ∧
    run (I2c.exec (I2c.Noisy.receive fun _ p _ => p)) s [.string [0x42,Spi.newline,0x43],.goToNextLine] = some t ∧
    I2c.string (I2c.Noisy.receive fun _ p _ => p) t [0x41] = some u ∧ u.bus.moded.Straight ∧
    shown u.bus.moded.panel u.lineNum u.cursorPos =
      (shown t.bus.moded.panel t.lineNum t.cursorPos).text [0x41] := by
  have hsane : Panel.Sane ⟨fun _ => 0xFF,⟨2,5,60,70⟩,(4,66),some (0x26,[9]),[]⟩ := by
    intro op args h
    cases h
    decide
  have hs : run (I2c.exec (I2c.Noisy.receive fun _ p _ => p)) ⟨3,200,⟨⟨⟨fun _ => 0xFF,⟨2,5,60,70⟩,(4,66),
      some (0x26,[9]),[]⟩,[0]⟩,[fun _ => [],List.take 1]⟩⟩ [.setBrightness 7] = some _ := rfl
  obtain ⟨t,ht,htext⟩ := (noise_heals fun _ p _ => p).2 _ _ [.setBrightness 7]
    [.string [0x42,Spi.newline,0x43],.goToNextLine] hsane hs rfl
    (by simp [I2c.Op.Tracked, I2c.Op.spi, Spi.Op.Tracked, Spi.Printable, Spi.newline]) (by decide)
  obtain ⟨u,hu,hshown⟩ := htext [0x41] (by simp [Spi.Printable])
  have hmodes : (((run (I2c.exec (I2c.Noisy.receive fun _ p _ => p)) ⟨3,200,⟨⟨⟨fun _ => 0xFF,⟨2,5,60,70⟩,(4,66),
      some (0x26,[9]),[]⟩,[0]⟩,[fun _ => [],List.take 1]⟩⟩ [.setBrightness 7]).bind fun s =>
      (run (I2c.exec (I2c.Noisy.receive fun _ p _ => p)) s [.string [0x42,Spi.newline,0x43],.goToNextLine]).bind
        fun t => I2c.string (I2c.Noisy.receive fun _ p _ => p) t [0x41]).map fun u => u.bus.moded.modes) =
      some [0] := by decide +kernel
  rw [hs,Option.bind_some,ht,Option.bind_some,hu,Option.map_some,Option.some.injEq] at hmodes
  have hstraight : u.bus.moded.Straight := by
    rw [Moded.Straight,hmodes]
    intro mode hmode
    cases List.mem_singleton.mp hmode
    rfl
  exact ⟨_,t,u,rfl,ht,hu,hstraight,hshown hstraight⟩

/-- One change of line is not enough: a scroll command takes all six bytes of it. -/
example : (Spi.goToNextLine Spi.Display.receive
    ⟨3,0,⟨⟨fun _ => 0,fullWindow,(5,9),some (0x26,[]),[]⟩,true,true⟩⟩).bus.panel.pointer = (5,9) := by decide

/-- Where the noise takes the 0x81 of `SSD1306_SetBrightness` away, the brightness 0x20 is a command, and the
first byte of the next call is the addressing mode. -/
example : (run (I2c.exec (I2c.Noisy.receive fun _ p _ => p)) ⟨0,0,⟨⟨⟨fun _ => 0,fullWindow,(0,0),none,[]⟩,[0]⟩,
    [fun _ => []]⟩⟩ [.setBrightness 0x20,.goToNextLine]).map (fun t => t.bus.moded.modes) = some [0,0x21] := by
  decide +kernel

end ExampleKernel.Oled
