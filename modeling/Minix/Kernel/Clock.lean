/-
  Kernel/Clock.lean --- timers and the clock: the timer list of `lib/timers`, its
  use in `clock.c`, the periodic `balance_queues`, and the timer interrupt.

  The clock keeps one list of timers, ordered by expiration time.  A timer is a
  record inside some other structure (`p_deadline` of a process, `s_alarm_timer` of
  a privilege structure, a static variable), linked through `tmr_next`.  When the
  clock task finds that the first timers are due, it unlinks each of them, marks it
  as inactive with `TMR_NEVER`, and runs its watchdog function.
-/
import Minix.Kernel.Ipc

set_option autoImplicit false

namespace Minix.Kernel

open Minix.Foundation

namespace State

/-! ## Timer records -/

/-- The record of a timer. -/
def timer (s : State) : TimerId → Timer
  | .deadline rp => (s.proc rp).pDeadline
  | .alarm sp => (s.priv sp).sAlarmTimer
  | .queue => s.queueTimer

/-- Write to the record of a timer. -/
def modTimer (s : State) (tp : TimerId) (f : Timer → Timer) : State :=
  match tp with
  | .deadline rp => s.modProc rp fun p => { p with pDeadline := f p.pDeadline }
  | .alarm sp => s.modPriv sp fun p => { p with sAlarmTimer := f p.sAlarmTimer }
  | .queue => { s with queueTimer := f s.queueTimer }

/-- The list `clock_timers`, linked through `tmr_next`. -/
def timerLinks (s : State) : Links Unit TimerId where
  head _ := s.clockTimers
  next tp := (s.timer tp).tmrNext

/-- Write to a link of the timer list. -/
def setTimerLink (s : State) : Ref Unit TimerId → Option TimerId → State
  | .head _, v => { s with clockTimers := v }
  | .next tp, v => s.modTimer tp fun t => { t with tmrNext := v }

/-- One timer per process, one per privilege pointer, and the queue timer. -/
def nrTimers : Nat := nrSlots + (nrSysProcs + 1) + 1

/-! ## The timer list -/

/-- `tmrs_clrtimer(&clock_timers, tp, NULL)` -/
def tmrsClrtimer (s : State) (tp : TimerId) : State :=
  let s := s.modTimer tp fun t => { t with tmrExpTime := tmrNever }
  match s.timerLinks.seek (fun x => x == tp) (nrTimers + 1) (.head ()) with
  | none => s.stop .hang
  | some atp =>
      match s.timerLinks.get atp with
      | none => s
      | some _ => s.setTimerLink atp (s.timer tp).tmrNext

/-- `tmrs_settimer(&clock_timers, tp, exp_time, watchdog, NULL)` -/
def tmrsSettimer (s : State) (tp : TimerId) (expTime : Int) (watchdog : Watchdog) : State :=
  let s := (s.tmrsClrtimer tp).modTimer tp fun t =>
    { t with tmrExpTime := expTime, tmrFunc := some watchdog }
  match s.timerLinks.seek (fun x => decide (expTime < (s.timer x).tmrExpTime)) (nrTimers + 1)
      (.head ()) with
  | none => s.stop .hang
  | some atp => (s.setTimerLink (.next tp) (s.timerLinks.get atp)).setTimerLink atp (some tp)

/-- `clock_timers == NULL ? TMR_NEVER : clock_timers->tmr_exp_time` -/
def headTimeout (s : State) : Int :=
  match s.clockTimers with
  | none => tmrNever
  | some tp => (s.timer tp).tmrExpTime

/-- `set_timer(tp, exp_time, watchdog)` -/
def setTimer (s : State) (tp : TimerId) (expTime : Int) (watchdog : Watchdog) : State :=
  let s := s.tmrsSettimer tp expTime watchdog
  { s with nextTimeout := s.headTimeout }

/-- `reset_timer(tp)` -/
def resetTimer (s : State) (tp : TimerId) : State :=
  let s := s.tmrsClrtimer tp
  { s with nextTimeout := s.headTimeout }

/-! ## Balancing the queues -/

/-- One iteration of the loop of `balance_queues`, without the accounting. -/
def balanceProc (s : State) (rp : Slot) : State :=
  if s.isemptyp rp then s
  else if (s.proc rp).pMaxPriority < (s.proc rp).pPriority then
    let s1 := if s.procIsRunnable rp then s.dequeue rp else s
    let s2 := s1.modProc rp fun p => { p with pPriority := p.pPriority - 1 }
    if s2.procIsRunnable rp then s2.enqueue rp else s2
  else s.modProc rp fun p => { p with pTicksLeft := p.pQuantumSize }

/-- What one iteration of `balance_queues` adds to `ticks_added`. -/
def balanceTicks (s : State) (rp : Slot) : Int :=
  if s.isemptyp rp then 0
  else if (s.proc rp).pMaxPriority < (s.proc rp).pPriority then (s.proc rp).pQuantumSize
  else (s.proc rp).pQuantumSize - (s.proc rp).pTicksLeft

/-- The loop of `balance_queues` over the process table. -/
def balanceLoop (s : State) (ticksAdded : Int) : List Slot → Int × State
  | [] => (ticksAdded, s)
  | rp :: rps => (s.balanceProc rp).balanceLoop (ticksAdded + s.balanceTicks rp) rps

/-- `balance_queues(tp)`; `Q_BALANCE_TICKS` is 100. -/
def balanceQueues (s : State) : State :=
  let balanced := s.balanceLoop 0 (List.finRange nrSlots)
  balanced.2.setTimer .queue (wrap32 (s.realtime + max 100 balanced.1)) .balanceQueues

/-! ## Expiring timers -/

/-- The watchdog functions: `reach_deadline`, `cause_alarm` and `balance_queues`. -/
def runWatchdog (s : State) (arg : Int) : Watchdog → State
  | .reachDeadline =>
      match procAddr arg with
      | none => s.stop .wild
      | some rp => s.causeSig rp sigterm
  | .causeAlarm => (s.miniNotify clockSlot arg).2
  | .balanceQueues => s.balanceQueues

/-- `tmrs_exptimers(&clock_timers, now, NULL)`, for at most `fuel` timers. -/
def tmrsExptimers (s : State) (now : Int) : Nat → State
  | 0 => s.stop .hang
  | fuel + 1 =>
      match s.clockTimers with
      | none => s
      | some tp =>
          if (s.timer tp).tmrExpTime ≤ now then
            let s1 : State := { s with clockTimers := (s.timer tp).tmrNext }
            let s2 := s1.modTimer tp fun t => { t with tmrExpTime := tmrNever }
            match (s2.timer tp).tmrFunc with
            | none => s2.stop .wild
            | some watchdog =>
                (s2.runWatchdog (s2.timer tp).tmrArg watchdog).tmrsExptimers now fuel
          else s

/-- What the clock task does for a notification from HARDWARE. -/
def clockTask (s : State) : State :=
  let s := s.tmrsExptimers s.realtime (nrTimers + 1)
  { s with nextTimeout := s.headTimeout }

/-! ## The timer interrupt -/

/-- `vtimer_check(rp)` -/
def vtimerCheck (s : State) (rp : Slot) : State :=
  let s1 :=
    if s.mfIsset rp mfVirtTimer && decide ((s.proc rp).pVirtLeft ≤ 0) then
      (s.modProc rp fun p =>
        { p with pMiscFlags := clearBits p.pMiscFlags mfVirtTimer, pVirtLeft := 0 }).causeSig
          rp sigvtalrm
    else s
  if s1.mfIsset rp mfProfTimer && decide ((s1.proc rp).pProfLeft ≤ 0) then
    (s1.modProc rp fun p =>
      { p with pMiscFlags := clearBits p.pMiscFlags mfProfTimer, pProfLeft := 0 }).causeSig
        rp sigprof
  else s1

/-- A write to an entry that is made only if `c` holds. -/
def modProcIf (s : State) (c : Bool) (rp : Slot) (f : Proc → Proc) : State :=
  if c then s.modProc rp f else s

/-- The accounting of one tick in `ap_timer_int_handler`. -/
def chargeTick (s : State) : State :=
  let p := s.procPtr
  let billp := s.billPtr
  let billable := isSet (s.privOf p).sFlags billable
  let s1 := s.modProc p fun pr => { pr with pUserTime := wrap32 (pr.pUserTime + 1) }
  let s2 := s1.modProcIf (isSet (s1.privOf p).sFlags preemptible) p fun pr =>
    { pr with pTicksLeft := wrap8 (pr.pTicksLeft - 1) }
  let s3 := s2.modProcIf (!billable) billp fun pr =>
    { pr with pSysTime := wrap32 (pr.pSysTime + 1), pTicksLeft := wrap8 (pr.pTicksLeft - 1) }
  let s4 := s3.modProcIf (s3.mfIsset p mfVirtTimer) p fun pr =>
    { pr with pVirtLeft := wrap32 (pr.pVirtLeft - 1) }
  let s5 := s4.modProcIf (s4.mfIsset p mfProfTimer) p fun pr =>
    { pr with pProfLeft := wrap32 (pr.pProfLeft - 1) }
  s5.modProcIf (!billable && s5.mfIsset billp mfProfTimer) billp fun pr =>
    { pr with pProfLeft := wrap32 (pr.pProfLeft - 1) }

/-- `ap_timer_int_handler()` -/
def apTimerIntHandler (s : State) : State :=
  let p := s.procPtr
  let billp := s.billPtr
  let s1 := s.chargeTick.vtimerCheck p
  let s2 := if p ≠ billp then s1.vtimerCheck billp else s1
  if s2.procIsRunnable p && decide ((s2.proc p).pTicksLeft ≤ 0) &&
      isSet (s2.privOf p).sFlags preemptible then s2.rtsSet p rtsNoQuantum
  else s2

/-- `bsp_timer_int_handler()` -/
def bspTimerIntHandler (s : State) : State :=
  let s1 : State :=
    { s with realtime := wrap32 (s.realtime + (s.lostTicks + 1)), lostTicks := 0 }
  let s2 := s1.apTimerIntHandler
  if s2.nextTimeout ≤ s2.realtime then
    (s2.miniNotify hardwareSlot (procNr clockSlot)).2
  else s2

end State

end Minix.Kernel
