import ExampleKernel.GlobalFifo.Operations

/-! The statements of globalfifo as relations, with one constructor for each way that a statement can end. What
holds of every statement is proved from these, and not from the functions. -/
namespace ExampleKernel.GlobalFifo
open ExampleKernel.Foundation ExampleKernel.Kernel

section Relations
variable (nonblock : Bool) (buf : ℕ → UInt8) (cmd : UInt32) (events : Events)
variable (dev : GlobalfifoDev) (t : Task) (c : Choice)

/-- From the frame `t` a statement of `globalfifo_read` leads to a frame, with an effect. -/
inductive ReadMove : Task → Effect → Prop
  | lock (hfree : dev.mutex = none) (hpc : t.pc = .lock) : ReadMove (t.goto .addWait) .mutexLock
  | addWait (hpc : t.pc = .addWait) : ReadMove (t.goto .test) (.addWaitQueue .r)
  | again (hlimit : dev.currentLen = 0) (hnb : nonblock = true) (hpc : t.pc = .test) :
      ReadMove (t.exit (-eagain) .out) .none
  | wait (hlimit : dev.currentLen = 0) (hnb : nonblock = false) (hpc : t.pc = .test) :
      ReadMove (t.goto .sleep) .none
  | proceed (hlimit : dev.currentLen ≠ 0) (hpc : t.pc = .test) : ReadMove (t.goto .clamp) .none
  | sleep (hpc : t.pc = .sleep) : ReadMove {t with pc := .unlock, state := .interruptible} .none
  | unlock (hpc : t.pc = .unlock) : ReadMove (t.goto .schedule) .mutexUnlock
  | pass (hawake : t.state = .running ∨ t.signalled = true) (hpc : t.pc = .schedule) :
      ReadMove {t with pc := .resume, state := .running} .none
  | block (hawake : ¬ (t.state = .running ∨ t.signalled = true)) (hpc : t.pc = .schedule) :
      ReadMove (t.goto .asleep) .none
  | woken (hstate : t.state = .running) (hpc : t.pc = .asleep) : ReadMove (t.goto .resume) .none
  | interrupted (hsignal : t.signalled = true) (hpc : t.pc = .resume) :
      ReadMove (t.exit (-erestartsys) .removeWait) .none
  | resume (hsignal : t.signalled = false) (hpc : t.pc = .resume) : ReadMove (t.goto .relock) .none
  | relock (hfree : dev.mutex = none) (hpc : t.pc = .relock) : ReadMove (t.goto .test) .mutexLock
  | clamp (hpc : t.pc = .clamp) :
      ReadMove {t with pc := .copy, count := clampTo t.count dev.currentLen.toUInt64} .none
  | fault (k : ℕ) (zeroed : Bool) (hc : c = .fault k zeroed) (hk : k < t.count.toNat) (hpc : t.pc = .copy) :
      ReadMove {t with pc := .out, ret := -efault, ubuf := slice dev.mem 0 k} .none
  | copy (hpc : t.pc = .copy) : ReadMove {t with
      pc := .shift, ubuf := slice dev.mem 0 t.count.toNat, seen := dev.currentLen.toNat} .none
  | shift (hpc : t.pc = .shift) : ReadMove (t.goto .account)
      (.store (memmove dev.mem t.count.toNat (dev.currentLen.toUInt64-t.count).toNat))
  | account (hpc : t.pc = .account) : ReadMove (t.goto .wake)
      (.setLen (dev.currentLen.toUInt64-t.count).toUInt32 (.get t.ubuf))
  | wake (hpc : t.pc = .wake) : ReadMove (t.exit (intOf t.count.toNat) .out) (.wakeUp .w)
  | out (hpc : t.pc = .out) : ReadMove (t.goto .removeWait) .mutexUnlock
  | removeWait (hpc : t.pc = .removeWait) : ReadMove (t.goto .setRunning) (.removeWaitQueue .r)
  | setRunning (hpc : t.pc = .setRunning) : ReadMove {t with pc := .ret, state := .running} .none
  | ret (hpc : t.pc = .ret) : ReadMove (t.goto .idle) .none

/-- The same for `globalfifo_write`. -/
inductive WriteMove : Task → Effect → Prop
  | lock (hfree : dev.mutex = none) (hpc : t.pc = .lock) : WriteMove (t.goto .addWait) .mutexLock
  | addWait (hpc : t.pc = .addWait) : WriteMove (t.goto .test) (.addWaitQueue .w)
  | again (hlimit : dev.currentLen = globalfifoSize) (hnb : nonblock = true) (hpc : t.pc = .test) :
      WriteMove (t.exit (-eagain) .out) .none
  | wait (hlimit : dev.currentLen = globalfifoSize) (hnb : nonblock = false) (hpc : t.pc = .test) :
      WriteMove (t.goto .sleep) .none
  | proceed (hlimit : dev.currentLen ≠ globalfifoSize) (hpc : t.pc = .test) : WriteMove (t.goto .clamp) .none
  | sleep (hpc : t.pc = .sleep) : WriteMove {t with pc := .unlock, state := .interruptible} .none
  | unlock (hpc : t.pc = .unlock) : WriteMove (t.goto .schedule) .mutexUnlock
  | pass (hawake : t.state = .running ∨ t.signalled = true) (hpc : t.pc = .schedule) :
      WriteMove {t with pc := .resume, state := .running} .none
  | block (hawake : ¬ (t.state = .running ∨ t.signalled = true)) (hpc : t.pc = .schedule) :
      WriteMove (t.goto .asleep) .none
  | woken (hstate : t.state = .running) (hpc : t.pc = .asleep) : WriteMove (t.goto .resume) .none
  | interrupted (hsignal : t.signalled = true) (hpc : t.pc = .resume) :
      WriteMove (t.exit (-erestartsys) .removeWait) .none
  | resume (hsignal : t.signalled = false) (hpc : t.pc = .resume) : WriteMove (t.goto .relock) .none
  | relock (hfree : dev.mutex = none) (hpc : t.pc = .relock) : WriteMove (t.goto .test) .mutexLock
  | clamp (hpc : t.pc = .clamp) :
      WriteMove {t with pc := .copy, count := clampTo t.count (room dev.currentLen)} .none
  | fault (k : ℕ) (zeroed : Bool) (hc : c = .fault k zeroed) (hk : k < t.count.toNat) (hpc : t.pc = .copy) :
      WriteMove (t.exit (-efault) .out)
        (.store (copyFromUserFault dev.mem dev.currentLen.toNat t.count.toNat k buf zeroed))
  | copy (hpc : t.pc = .copy) : WriteMove {t with pc := .account, seen := dev.currentLen.toNat}
      (.store (blit dev.mem dev.currentLen.toNat t.count.toNat buf))
  | account (hpc : t.pc = .account) : WriteMove (t.goto .wake)
      (.setLen (dev.currentLen.toUInt64+t.count).toUInt32 (.put (slice buf 0 t.count.toNat)))
  | wake (hpc : t.pc = .wake) : WriteMove (t.goto .sigio) (.wakeUp .r)
  | unwatched (hnone : dev.asyncQueue = []) (hpc : t.pc = .sigio) :
      WriteMove (t.exit (intOf t.count.toNat) .out) .none
  | sigio (hsome : dev.asyncQueue ≠ []) (hpc : t.pc = .sigio) :
      WriteMove (t.exit (intOf t.count.toNat) .out) .killFasync
  | out (hpc : t.pc = .out) : WriteMove (t.goto .removeWait) .mutexUnlock
  | removeWait (hpc : t.pc = .removeWait) : WriteMove (t.goto .setRunning) (.removeWaitQueue .w)
  | setRunning (hpc : t.pc = .setRunning) : WriteMove {t with pc := .ret, state := .running} .none
  | ret (hpc : t.pc = .ret) : WriteMove (t.goto .idle) .none

/-- The same for `globalfifo_ioctl`. -/
inductive IoctlMove : Task → Effect → Prop
  | fifoClear (hcmd : cmd = fifoClear) (hpc : t.pc = .ioctlSwitch) : IoctlMove (t.goto .ioctlLock) .none
  | invalid (hcmd : cmd ≠ fifoClear) (hpc : t.pc = .ioctlSwitch) : IoctlMove (t.exit (-einval) .ret) .none
  | lock (hfree : dev.mutex = none) (hpc : t.pc = .ioctlLock) : IoctlMove (t.goto .ioctlClear) .mutexLock
  | clear (hpc : t.pc = .ioctlClear) : IoctlMove (t.goto .ioctlMemset) (.setLen 0 .clear)
  | memset (hpc : t.pc = .ioctlMemset) : IoctlMove (t.goto .ioctlUnlock)
      (.store (blit dev.mem 0 globalfifoSize.toNat fun _ => 0))
  | unlock (hpc : t.pc = .ioctlUnlock) : IoctlMove (t.exit 0 .ret) .mutexUnlock
  | ret (hpc : t.pc = .ret) : IoctlMove (t.goto .idle) .none

/-- The same for `globalfifo_poll` and the poll core around it. -/
inductive PollMove : Task → Effect → Prop
  | lock (hfree : dev.mutex = none) (hpc : t.pc = .pollLock) : PollMove (t.goto .pollWaitR) .mutexLock
  | waitR (hfirst : t.polling = false) (hpc : t.pc = .pollWaitR) : PollMove (t.goto .pollWaitW) (.addWaitQueue .r)
  | keepR (hlater : t.polling = true) (hpc : t.pc = .pollWaitR) : PollMove (t.goto .pollWaitW) .none
  | waitW (hfirst : t.polling = false) (hpc : t.pc = .pollWaitW) : PollMove (t.goto .pollTestR) (.addWaitQueue .w)
  | keepW (hlater : t.polling = true) (hpc : t.pc = .pollWaitW) : PollMove (t.goto .pollTestR) .none
  | testR (hpc : t.pc = .pollTestR) :
      PollMove {t with pc := .pollTestW, mask := ⟨dev.currentLen ≠ 0,false⟩} .none
  | testW (hpc : t.pc = .pollTestW) : PollMove {t with
      pc := .pollUnlock, mask := ⟨t.mask.pollin,dev.currentLen ≠ globalfifoSize⟩} .none
  | unlock (hpc : t.pc = .pollUnlock) : PollMove (t.goto .pollRet) .mutexUnlock
  | ret (hpc : t.pc = .pollRet) : PollMove {t with pc := .selCheck, polling := true} .none
  | leave (hready : ((t.mask.pollin && events.pollin) || (t.mask.pollout && events.pollout) || c = .giveUp) = true)
      (hpc : t.pc = .selCheck) : PollMove (t.goto .selFreeR) .none
  | stay (hready : ¬ ((t.mask.pollin && events.pollin) || (t.mask.pollout && events.pollout) || c = .giveUp) = true)
      (hpc : t.pc = .selCheck) : PollMove (t.goto .selSleep) .none
  | sleep (hpc : t.pc = .selSleep) : PollMove {t with pc := .selSchedule, state := .interruptible} .none
  | triggered (htriggered : t.triggered = true) (hpc : t.pc = .selSchedule) :
      PollMove {t with pc := .selAgain, state := .running} .none
  | pass (htriggered : t.triggered = false) (hawake : t.state = .running ∨ t.signalled = true)
      (hpc : t.pc = .selSchedule) : PollMove {t with pc := .selAgain, state := .running} .none
  | block (htriggered : t.triggered = false) (hawake : ¬ (t.state = .running ∨ t.signalled = true))
      (hpc : t.pc = .selSchedule) : PollMove (t.goto .selAsleep) .none
  | woken (hstate : t.state = .running) (hpc : t.pc = .selAsleep) : PollMove (t.goto .selAgain) .none
  | again (hpc : t.pc = .selAgain) : PollMove {t with pc := .pollLock, triggered := false} .none
  | freeR (hpc : t.pc = .selFreeR) : PollMove (t.goto .selFreeW) (.removeWaitQueue .r)
  | freeW (hpc : t.pc = .selFreeW) : PollMove (t.goto .idle) (.removeWaitQueue .w)

end Relations

section Functions
variable {dev : GlobalfifoDev} {t t' : Task} {c : Choice} {e : Effect}

theorem read_move {nonblock : Bool} (h : globalfifoRead nonblock dev t c = some (t',e)) :
    ReadMove nonblock dev t c t' e := by
  cases hpc : t.pc <;>
    simp only [globalfifoRead, hpc, mutexLock, enterSchedule, leaveSchedule, reduceCtorEq] at h
  case lock => split_ifs at h with hfree; cases h; exact .lock hfree hpc
  case relock => split_ifs at h with hfree; cases h; exact .relock hfree hpc
  case test =>
    split_ifs at h with hlimit hnb <;> cases h
    · exact .again hlimit hnb hpc
    · exact .wait hlimit (Bool.eq_false_iff.mpr hnb) hpc
    · exact .proceed hlimit hpc
  case schedule => split_ifs at h with hawake <;> cases h <;> [exact .pass hawake hpc; exact .block hawake hpc]
  case asleep => split_ifs at h with hstate; cases h; exact .woken hstate hpc
  case resume =>
    split_ifs at h with hsignal <;> cases h
    · exact .interrupted hsignal hpc
    · exact .resume (Bool.eq_false_iff.mpr hsignal) hpc
  case copy =>
    cases c with
    | fault k zeroed => dsimp only at h; split_ifs at h with hk; cases h; exact .fault k zeroed rfl hk hpc
    | done | giveUp => cases h; exact .copy hpc
  all_goals
    cases h
    first
    | exact .addWait hpc
    | exact .sleep hpc
    | exact .unlock hpc
    | exact .clamp hpc
    | exact .shift hpc
    | exact .account hpc
    | exact .wake hpc
    | exact .out hpc
    | exact .removeWait hpc
    | exact .setRunning hpc
    | exact .ret hpc

theorem write_move {nonblock : Bool} {buf : ℕ → UInt8} (h : globalfifoWrite nonblock buf dev t c = some (t',e)) :
    WriteMove nonblock buf dev t c t' e := by
  cases hpc : t.pc <;>
    simp only [globalfifoWrite, hpc, mutexLock, enterSchedule, leaveSchedule, reduceCtorEq] at h
  case lock => split_ifs at h with hfree; cases h; exact .lock hfree hpc
  case relock => split_ifs at h with hfree; cases h; exact .relock hfree hpc
  case test =>
    split_ifs at h with hlimit hnb <;> cases h
    · exact .again hlimit hnb hpc
    · exact .wait hlimit (Bool.eq_false_iff.mpr hnb) hpc
    · exact .proceed hlimit hpc
  case schedule => split_ifs at h with hawake <;> cases h <;> [exact .pass hawake hpc; exact .block hawake hpc]
  case asleep => split_ifs at h with hstate; cases h; exact .woken hstate hpc
  case resume =>
    split_ifs at h with hsignal <;> cases h
    · exact .interrupted hsignal hpc
    · exact .resume (Bool.eq_false_iff.mpr hsignal) hpc
  case copy =>
    cases c with
    | fault k zeroed => dsimp only at h; split_ifs at h with hk; cases h; exact .fault k zeroed rfl hk hpc
    | done | giveUp => cases h; exact .copy hpc
  case sigio =>
    split_ifs at h with hnone <;> cases h
    · exact .unwatched hnone hpc
    · exact .sigio hnone hpc
  all_goals
    cases h
    first
    | exact .addWait hpc
    | exact .sleep hpc
    | exact .unlock hpc
    | exact .clamp hpc
    | exact .account hpc
    | exact .wake hpc
    | exact .out hpc
    | exact .removeWait hpc
    | exact .setRunning hpc
    | exact .ret hpc

theorem ioctl_move {cmd : UInt32} (h : globalfifoIoctl cmd dev t = some (t',e)) : IoctlMove cmd dev t t' e := by
  cases hpc : t.pc <;> simp only [globalfifoIoctl, hpc, mutexLock, reduceCtorEq] at h
  case ioctlSwitch => split_ifs at h with hcmd <;> cases h <;> [exact .fifoClear hcmd hpc; exact .invalid hcmd hpc]
  case ioctlLock => split_ifs at h with hfree; cases h; exact .lock hfree hpc
  all_goals
    cases h
    first
    | exact .clear hpc
    | exact .memset hpc
    | exact .unlock hpc
    | exact .ret hpc

theorem poll_move {events : Events} (h : doPoll events dev t c = some (t',e)) : PollMove events dev t c t' e := by
  cases hpc : t.pc <;>
    simp only [doPoll, globalfifoPoll, pollWait, hpc, mutexLock, enterSchedule, leaveSchedule, reduceCtorEq] at h
  case pollLock => split_ifs at h with hfree; cases h; exact .lock hfree hpc
  case pollWaitR =>
    split_ifs at h with hlater <;> cases h
    · exact .keepR hlater hpc
    · exact .waitR (Bool.eq_false_iff.mpr hlater) hpc
  case pollWaitW =>
    split_ifs at h with hlater <;> cases h
    · exact .keepW hlater hpc
    · exact .waitW (Bool.eq_false_iff.mpr hlater) hpc
  case selCheck => split_ifs at h with hready <;> cases h <;> [exact .leave hready hpc; exact .stay hready hpc]
  case selSchedule =>
    split_ifs at h with htriggered hawake <;> cases h
    · exact .triggered htriggered hpc
    · exact .pass (Bool.eq_false_iff.mpr htriggered) hawake hpc
    · exact .block (Bool.eq_false_iff.mpr htriggered) hawake hpc
  case selAsleep => split_ifs at h with hstate; cases h; exact .woken hstate hpc
  all_goals
    cases h
    first
    | exact .testR hpc
    | exact .testW hpc
    | exact .unlock hpc
    | exact .ret hpc
    | exact .sleep hpc
    | exact .again hpc
    | exact .freeR hpc
    | exact .freeW hpc

/-- A statement is one of the four calls. -/
theorem statement_move (h : statement dev t c = some (t',e)) :
    (∃ nonblock n, t.call = .read nonblock n ∧ ReadMove nonblock dev t c t' e) ∨
    (∃ nonblock n buf, t.call = .write nonblock n buf ∧ WriteMove nonblock buf dev t c t' e) ∨
    (∃ cmd, t.call = .ioctl cmd ∧ IoctlMove cmd dev t t' e) ∨
    ∃ events, t.call = .poll events ∧ PollMove events dev t c t' e := by
  cases hcall : t.call <;> simp only [statement, hcall] at h
  · exact .inl ⟨_,_,rfl,read_move h⟩
  · exact .inr (.inl ⟨_,_,_,rfl,write_move h⟩)
  · exact .inr (.inr (.inl ⟨_,rfl,ioctl_move h⟩))
  · exact .inr (.inr (.inr ⟨_,rfl,poll_move h⟩))

end Functions

end ExampleKernel.GlobalFifo
