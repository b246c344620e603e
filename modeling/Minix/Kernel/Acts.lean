/-
  Kernel/Acts.lean --- what the kernel tasks do to the queues and the timers, act by act.

  The clock task and the kernel calls change the scheduler's data in few ways: they take
  steps, balance a process, set and reset timers, let a timer expire, place a process on
  another queue, declare and withdraw deadlines, and begin and end processes.  An
  invariant of the queues and timers only has to be kept by these acts.  Some of them are
  good for an invariant under a condition only; a run of acts names its condition.
-/
import Minix.Kernel.Rules

set_option autoImplicit false

namespace Minix.Kernel

open Minix.Foundation Relation

namespace State

variable (s : State)

/-- The deadline of a process is withdrawn. -/
def withdraw (rp : Slot) : State :=
  (s.resetTimer (.deadline rp)).modTimer (.deadline rp) fun t => { t with tmrExpTime := 0 }

/-- A deadline of a process is declared. -/
def declare (rp : Slot) (expTime : Int) : State :=
  (s.modTimer (.deadline rp) fun t =>
    { t with
      tmrExpTime := expTime
      tmrFunc := some .reachDeadline
      tmrArg := procNr rp }).setTimer (.deadline rp) expTime .reachDeadline

/-- The timer at the head of the list is taken off. -/
def expire (tp : TimerId) : State :=
  ({ s with clockTimers := (s.timer tp).tmrNext } : State).modTimer tp fun t =>
    { t with tmrExpTime := tmrNever }

@[simp] theorem untimed_withdraw {rp : Slot} : (s.withdraw rp).untimed = s.untimed := by
  simp [withdraw]

@[simp] theorem untimed_declare (rp : Slot) (expTime : Int) :
    (s.declare rp expTime).untimed = s.untimed := by
  simp [declare]

@[simp] theorem untimed_expire (tp : TimerId) : (s.expire tp).untimed = s.untimed :=
  untimed_modTimer _ tp

theorem niceQueue_range {pri : Int} : 0 ≤ niceQueue pri ∧ niceQueue pri ≤ 15 := by
  unfold niceQueue
  dsimp only
  split
  · omega
  · split <;> omega

/-- A process that holds a flag is on no queue. -/
theorem flags_rtsSet_ne_zero {rp : Slot} {f : BitVec 16} (hf : f ≠ 0#16) :
    ((s.rtsSet rp f).proc rp).pRtsFlags ≠ 0#16 := by
  rw [flags_rtsSet, if_pos rfl]
  exact or_ne_zero hf

end State

/-- What the clock task does; a timer that expires is `due`. -/
inductive ClockAct (due : State → TimerId → Prop) : State → State → Prop
  | sched {s s' : State} (h : SchedStep s s') : ClockAct due s s'
  | balance (s : State) (rp : Slot) : ClockAct due s (s.balanceProc rp)
  | setTimer (s : State) {tp : TimerId} (htp : ∀ i, TimerId.deadline i ≠ tp) (expTime : Int)
      (watchdog : Watchdog) : ClockAct due s (s.setTimer tp expTime watchdog)
  | expire (s : State) {tp : TimerId} (hhead : s.clockTimers = some tp) (hdue : due s tp) :
      ClockAct due s (s.expire tp)

/-- The acts that an invariant may have a condition for. -/
inductive Deed where
  | expire (tp : TimerId)
  | withdraw (rp : Slot)
  | declare (rp : Slot) (expTime : Int)
  | fork (rpp rpc : Slot)

/-- What the kernel tasks do, with deeds that meet the condition. -/
inductive Act (C : State → Deed → Prop) : State → State → Prop
  | clock {s s' : State} (h : ClockAct (fun t tp => C t (.expire tp)) s s') : Act C s s'
  | resetTimer (s : State) (tp : TimerId) (htp : ∀ i, TimerId.deadline i ≠ tp) :
      Act C s (s.resetTimer tp)
  | alarm (s : State) (sp : PrivPtr) {f : Timer → Timer} (hf : ∀ t, (f t).tmrNext = t.tmrNext) :
      Act C s (s.modTimer (.alarm sp) f)
  | place (s : State) (rp : Slot) {q : Int} (hq : 0 ≤ q ∧ q ≤ 15)
      (hne : (s.proc rp).pRtsFlags ≠ 0#16) :
      Act C s (s.modProc rp fun p => { p with pMaxPriority := q, pPriority := q })
  | withdraw (s : State) (rp : Slot) (hok : C s (.withdraw rp)) : Act C s (s.withdraw rp)
  | declare (s : State) (rp : Slot) {expTime : Int} (hne : (s.proc rp).pRtsFlags ≠ 0#16)
      (hok : C s (.declare rp expTime)) : Act C s (s.declare rp expTime)
  -- the child is blocked as its parent is
  | fork (s : State) {rpp rpc : Slot} (ep : Int) (sys : Bool) (lin : Nat)
      (hfree : (s.proc rpc).pRtsFlags = rtsSlotFree) (hrecv : s.rtsIsset rpp rtsReceiving = true)
      (hok : C s (.fork rpp rpc)) :
      Act C s (s.modProc rpc fun _ => State.forkedProc (s.proc rpp) rpc ep sys lin)
  | free (s : State) (rc : Slot) : Act C s ((s.withdraw rc).rtsSetflags rc rtsSlotFree)
  | unpriv (s : State) (sp : PrivPtr) : Act C s (s.modPriv sp fun sp => { sp with sProcNr := endptNone })

/-- Runs of acts. -/
abbrev ClockActs (due : State → TimerId → Prop) : State → State → Prop := ReflTransGen (ClockAct due)

abbrev Acts (C : State → Deed → Prop) : State → State → Prop := ReflTransGen (Act C)

variable {C : State → Deed → Prop} {due : State → TimerId → Prop} {s s' : State} {μ : Mode}

theorem SchedStep.act (h : SchedStep s s') : Act C s s' := .clock (.sched h)

theorem SameSched.act (h : SameSched s s') : Act C s s' := SchedStep.act (.same h)

theorem SchedSteps.clock (h : SchedSteps s s') : ClockActs due s s' :=
  h.lift id fun _ _ hstep => .sched hstep

theorem ClockActs.acts (h : ClockActs (fun t tp => C t (.expire tp)) s s') : Acts C s s' :=
  h.lift id fun _ _ hact => .clock hact

theorem Steps.acts (h : Steps μ s s') : Acts C s s' := ClockActs.acts (SchedSteps.clock h.sched)

/-- What every act keeps, a run of acts keeps. -/
theorem run_keeps {P : State → Prop} {R : State → State → Prop} (hact : ∀ t t', P t → R t t' → P t')
    (h : P s) (hs : ReflTransGen R s s') : P s' := by
  induction hs with
  | refl => exact h
  | tail _ hstep ih => exact hact _ _ ih hstep

namespace State

variable (s)

/-! ## The clock -/

theorem acts_balanceQueues : ClockActs due s s.balanceQueues :=
  (balanceLoop_rule (P := ClockActs due s) (fun t rp ht => ht.tail (.balance t rp)) .refl 0 _).tail
    (.setTimer _ (by simp) _ _)

theorem acts_clockTask (hdue : ∀ t tp, ClockActs due s t → t.clockTimers = some tp →
      (t.timer tp).tmrExpTime ≤ s.realtime → due t tp) : ClockActs due s s.clockTask := by
  have hexp := tmrsExptimers_rule (P := ClockActs due s) (n := s.realtime)
    (fun t halt ht => ht.tail (.sched (.same .stop)))
    (fun t tp ht hhead hexp => ht.tail (.expire t hhead (hdue t tp ht hhead hexp)))
    (fun t arg watchdog ht => ht.trans (runWatchdog_rule (P := ClockActs due t) (μ := .any) trivial
      (fun _ hs => SchedSteps.clock hs.sched) t.acts_balanceQueues arg watchdog)) .refl (nrTimers + 1)
  refine hexp.tail (.sched (.same (SameSched.quiet ?_)))
  rfl

/-! ## Kernel calls -/

theorem acts_doNice {endpt pri : Int} : Acts C s (s.doNice endpt pri).2 := by
  refine doNice_rule (P := Acts C s) .refl fun rp _ => ?_
  have hlock : Acts C s (s.rtsSet rp rtsSysLock) :=
    .single (SchedStep.act (.set s rp (by decide) (by decide)))
  exact (hlock.tail (.place _ rp niceQueue_range (s.flags_rtsSet_ne_zero (by decide)))).tail
    (SchedStep.act (.unset _ rp (by decide)))

/-- The process is locked, and its deadline withdrawn if it has one. -/
def locked (rp : Slot) : State :=
  if 0 < ((s.rtsSet rp rtsSysLock).proc rp).pDeadline.tmrExpTime then
    (s.rtsSet rp rtsSysLock).withdraw rp
  else s.rtsSet rp rtsSysLock

theorem untimed_locked {rp : Slot} : (s.locked rp).untimed = (s.rtsSet rp rtsSysLock).untimed := by
  unfold locked
  split
  · exact untimed_withdraw _
  · rfl

/-- The deadline changes while the process is locked. -/
theorem doChdeadline_eq {n : Int} {rp : Slot} (haddr : procAddr n = some rp) (deadline : Int) :
    (s.doChdeadline n deadline).2 = (if deadline ≠ 0 then
      (s.locked rp).declare rp (wrap32 (deadline * 60 + s.realtime)) else s.locked rp).rtsUnset rp
        rtsSysLock := by
  have hclock : (s.locked rp).realtime = s.realtime :=
    (frame_congr realtime (s.untimed_locked) rfl).trans
      (frame_congr realtime (s.unsched_rtsSet rp rtsSysLock) rfl)
  rw [← hclock]
  unfold doChdeadline
  rw [haddr]
  rfl

theorem acts_doChdeadline {n deadline : Int}
    (hok : ∀ rp t, procAddr n = some rp → t.untimed = (s.rtsSet rp rtsSysLock).untimed →
      C t (.withdraw rp) ∧ (deadline ≠ 0 → C t (.declare rp (wrap32 (deadline * 60 + s.realtime))))) :
    Acts C s (s.doChdeadline n deadline).2 := by
  rcases haddr : procAddr n with _ | rp
  · unfold doChdeadline
    rw [haddr]
    exact .single SameSched.stop.act
  · have hlock : Acts C s (s.rtsSet rp rtsSysLock) :=
      .single (SchedStep.act (.set s rp (by decide) (by decide)))
    have hold : Acts C s (s.locked rp) := by
      unfold locked
      split
      · exact hlock.tail (.withdraw _ rp (hok rp _ haddr rfl).1)
      · exact hlock
    rw [s.doChdeadline_eq haddr]
    refine ReflTransGen.tail ?_ (SchedStep.act (.unset _ rp (by decide)))
    split_ifs with hne
    · refine hold.tail (.declare _ rp ?_ ((hok rp _ haddr (s.untimed_locked)).2 hne))
      rw [frame_proc Proc.pRtsFlags (s.untimed_locked) rp rfl]
      exact s.flags_rtsSet_ne_zero (by decide)
    · exact hold

theorem acts_doFork {parentE slot : Int} {env : ForkEnv}
    (hok : ∀ rpp rpc, s.isokendpt parentE = some rpp → procAddr slot = some rpc →
      C s (.fork rpp rpc)) : Acts C s (s.doFork parentE slot env).2 := by
  refine doFork_rule (P := Acts C s) .refl (.single SameSched.stop.act)
    fun rpp rpc hparent hchild hfree hrecv => ?_
  have hcopy : Acts C s (s.modProc rpc fun _ => forkedProc (s.proc rpp) rpc (s.proc rpc).pEndpoint
      (isSet (s.privOf rpp).sFlags sysProc) env.delivermsgLin) :=
    .single (.fork s _ _ _ hfree hrecv (hok rpp rpc hparent hchild))
  have hticks := hcopy.tail (SameSched.quiet (erase_modProc _ rpp (fun p =>
    { p with pTicksLeft := (s.proc rpp).pTicksLeft.tdiv 2 }) fun _ => rfl)).act
  refine ReflTransGen.tail (ReflTransGen.tail ?_ (SchedStep.act (.unset _ rpc (by decide))))
    (SameSched.modPending _ rpc _).act
  split
  · exact hticks.tail (SchedStep.act (.set _ rpc (by decide) (by decide)))
  · exact hticks

theorem acts_doExit {endpt : Int} : Acts C s (s.doExit endpt).2 := by
  refine doExit_rule (P := Acts C s) .refl fun rc _ => ?_
  have hclear : Acts C s (s.clearEndpoint rc) := (s.steps_clearEndpoint trivial rc (good_any s).live).acts
  unfold clearProc
  split
  · exact .refl
  dsimp only
  generalize s.clearEndpoint rc = t at hclear ⊢
  have hfree := ((hclear.tail (.resetTimer t (.alarm (t.proc rc).pPriv) (by simp))).tail (.free _ rc)).tail
    (SameSched.act (SameSched.quiet (erase_modProc _ rc (fun p => p.setMisc (clearBits p.pMiscFlags mfFpuInitialized))
      fun p => p.erase_setMisc_clear (by decide))))
  split
  · exact hclear
  · split
    · exact hfree.tail (.unpriv _ _)
    · exact hfree

theorem acts_doSetalarm {expTime : Int} {useAbsTime : Bool} :
    Acts C s (s.doSetalarm expTime useAbsTime).2.2 := by
  have halarm : Acts C s (s.modTimer (.alarm (s.proc s.whoP).pPriv) fun t =>
      { t with tmrArg := (s.proc s.whoP).pEndpoint, tmrFunc := some .causeAlarm }) :=
    .single (.alarm s _ fun _ => rfl)
  unfold doSetalarm
  split
  · exact .refl
  split
  · exact halarm.tail (.resetTimer _ _ (by simp))
  · refine ReflTransGen.tail (halarm.tail (.alarm _ _ fun _ => ?_))
      (.clock (.setTimer _ (by simp) _ _))
    rfl

end State

/-- The conditions on the deeds of a kernel call.  SYS_PRIVCTL is not made of acts. -/
def KernelCall.Ok (C : State → Deed → Prop) (s : State) : KernelCall → Prop
  | .chdeadline n deadline => ∀ rp t, procAddr n = some rp →
      t.untimed = (s.rtsSet rp rtsSysLock).untimed → C t (.withdraw rp) ∧
        (deadline ≠ 0 → C t (.declare rp (wrap32 (deadline * 60 + s.realtime))))
  | .fork parentE slot _ => ∀ rpp rpc, s.isokendpt parentE = some rpp → procAddr slot = some rpc →
      C s (.fork rpp rpc)
  | .privctl _ _ => False
  | _ => True

theorem KernelCall.acts {call : KernelCall} (hok : call.Ok C s) : Acts C s (call.run s) := by
  cases call with
  | nice endpt pri => exact s.acts_doNice
  | chdeadline n deadline => exact s.acts_doChdeadline hok
  | fork parentE slot env => exact s.acts_doFork hok
  | exit endpt => exact s.acts_doExit
  | privctl _ _ => exact absurd hok id
  | setalarm expTime useAbsTime => exact s.acts_doSetalarm
  | _ => exact Steps.acts (steps_any trivial)

end Minix.Kernel
