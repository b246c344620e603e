/-
  Kernel/Rules.lean --- proof rules for the operations of the kernel.

  A rule says what is to be shown of the parts of an operation so that a property of
  states, or a relation to a fixed state, holds after it.  The invariants of the later
  modules go through the same operations with these rules.
-/
import Minix.Kernel.Run
import Minix.Kernel.Calls
import Minix.Kernel.Timers

set_option autoImplicit false

namespace Minix.Kernel

open Minix.Foundation

namespace State

variable {P : State → Prop} {s : State} {rp : Slot}

/-! ## Queues -/

/-- The current process is put back on a queue if it was preempted, and gets a new
quantum if it has used up the old one. -/
theorem requeueCurrent_rule (h : s.rtsIsset s.procPtr rtsPreempted = false → P s)
    (hready : s.rtsIsset s.procPtr rtsPreempted = true →
      (s.modProc s.procPtr fun p => p.setRts (clearBits p.pRtsFlags rtsPreempted)).procIsRunnable
        s.procPtr = true →
      P ((s.modProc s.procPtr fun p => p.setRts (clearBits p.pRtsFlags rtsPreempted)).enqueueHead
        s.procPtr))
    (hblocked : s.rtsIsset s.procPtr rtsPreempted = true →
      (s.modProc s.procPtr fun p => p.setRts (clearBits p.pRtsFlags rtsPreempted)).procIsRunnable
        s.procPtr = false →
      P (s.modProc s.procPtr fun p => p.setRts (clearBits p.pRtsFlags rtsPreempted)))
    (hquantum : ∀ t, P t → t.procPtr = s.procPtr → P (t.rtsUnset t.procPtr rtsNoQuantum)) :
    P s.requeueCurrent := by
  have hrule : ∀ t, P t → t.procPtr = s.procPtr →
      P (if t.rtsIsset s.procPtr rtsNoQuantum = true then t.rtsUnset s.procPtr rtsNoQuantum else t) := by
    intro t ht hptr
    split
    · rw [← hptr]
      exact hquantum t ht hptr
    · exact ht
  have hhead : ∀ t : State, (t.enqueueHead s.procPtr).procPtr = t.procPtr := fun _ =>
    frame_congr procPtr unlinked_enqueueHead rfl
  unfold requeueCurrent
  dsimp only
  refine hrule _ ?_ ?_
  · split
    · rename_i hpre
      split_ifs with hrun
      · exact hready hpre hrun
      · exact hblocked hpre (by simpa using hrun)
    · rename_i hpre
      exact h (by simpa using hpre)
  · repeat' split
    all_goals first
      | rfl
      | exact hhead _

/-- `balance_queues` moves a process to another queue, or renews its quantum. -/
theorem balanceProc_rule (h : P s) (hoff : ∀ t, P t → P (t.dequeue rp))
    (hlower : ∀ t, P t → P (t.modProc rp fun p => { p with pPriority := p.pPriority - 1 }))
    (hon : ∀ t, P t → P (t.enqueue rp))
    (hticks : ∀ t, P t → P (t.modProc rp fun p => { p with pTicksLeft := p.pQuantumSize })) :
    P (s.balanceProc rp) := by
  unfold balanceProc
  split
  · exact h
  split
  · have hmoved : P (if s.procIsRunnable rp = true then s.dequeue rp else s) := by
      split
      · exact hoff s h
      · exact h
    generalize (if s.procIsRunnable rp = true then s.dequeue rp else s) = s1 at hmoved
    dsimp only
    split
    · exact hon _ (hlower s1 hmoved)
    · exact hlower s1 hmoved
  · exact hticks s h

theorem balanceLoop_rule (hproc : ∀ t rp, P t → P (t.balanceProc rp)) (h : P s) (ticks : Int)
    (rps : List Slot) : P (s.balanceLoop ticks rps).2 := by
  induction rps generalizing s ticks with
  | nil => exact h
  | cons rp rps ih => exact ih (hproc s rp h) _

@[simp] theorem procPtr_balanceProc (s : State) {rp : Slot} :
    (s.balanceProc rp).procPtr = s.procPtr :=
  balanceProc_rule (P := fun t => t.procPtr = s.procPtr) rfl
    (fun _ ht => (frame_congr procPtr unlinked_dequeue rfl).trans ht)
    (fun _ ht => ht)
    (fun t ht => (frame_congr procPtr (t.unsched_enqueue rp) rfl).trans ht)
    fun _ ht => ht

/-! ## Timers -/

theorem runWatchdog_rule {μ : Mode} (hzombie : μ.zombie) (hsteps : ∀ t, Steps μ s t → P t)
    (hbalance : P s.balanceQueues) (arg : Int) (watchdog : Watchdog) :
    P (s.runWatchdog arg watchdog) := by
  cases watchdog with
  | reachDeadline =>
    simp only [runWatchdog]
    split
    · have hstop : (s.stop .wild).erase = s.erase := rfl
      exact hsteps _ (lights_of_erase hstop).steps
    · exact hsteps _ (s.lights_causeSig (.inl hzombie) sigterm).lights.steps
  | causeAlarm => exact hsteps _ (s.lights_miniNotify clockSlot arg).lights.steps
  | balanceQueues => exact hbalance

/-- The timers that are due are taken off the list, one by one, and their functions are
called. -/
theorem tmrsExptimers_rule {n : Int} (hstop : ∀ t halt, P t → P (t.stop halt))
    (hexpire : ∀ t tp, P t → t.clockTimers = some tp → (t.timer tp).tmrExpTime ≤ n →
      P (({ t with clockTimers := (t.timer tp).tmrNext } : State).modTimer tp fun r =>
        { r with tmrExpTime := tmrNever }))
    (hrun : ∀ t arg watchdog, P t → P (t.runWatchdog arg watchdog)) (h : P s) (fuel : Nat) :
    P (s.tmrsExptimers n fuel) := by
  induction fuel generalizing s with
  | zero => exact hstop s _ h
  | succ fuel ih =>
    rw [tmrsExptimers]
    split
    · exact h
    rename_i tp hhead
    split_ifs with hdue
    · have hunlink := hexpire s tp h hhead hdue
      dsimp only
      split
      · exact hstop _ _ hunlink
      · exact ih (hrun _ _ _ hunlink)
    · exact h

/-! ## Kernel calls -/

theorem doNice_rule {endpt pri : Int} (h : P s)
    (hnice : ∀ rp, s.isokendpt endpt = some rp → P (((s.rtsSet rp rtsSysLock).modProc rp fun p =>
      { p with pMaxPriority := niceQueue pri, pPriority := niceQueue pri }).rtsUnset rp
        rtsSysLock)) : P (s.doNice endpt pri).2 := by
  unfold doNice
  split
  · exact h
  · rename_i rp hrp
    repeat' split
    all_goals first
      | exact h
      | exact hnice rp hrp

/-- A child takes a free slot; its parent waits for a message. -/
theorem doFork_rule {parentE slot : Int} {env : ForkEnv} (h : P s) (hstop : P (s.stop .wild))
    (hfork : ∀ rpp rpc, s.isokendpt parentE = some rpp → procAddr slot = some rpc →
      (s.proc rpc).pRtsFlags = rtsSlotFree → s.rtsIsset rpp rtsReceiving = true →
      P (let s1 := (s.modProc rpc fun _ => forkedProc (s.proc rpp) rpc (s.proc rpc).pEndpoint
            (isSet (s.privOf rpp).sFlags sysProc) env.delivermsgLin).modProc rpp fun p =>
          { p with pTicksLeft := (s.proc rpp).pTicksLeft.tdiv 2 }
        let s2 := if env.vminhibit then s1.rtsSet rpc rtsVminhibit else s1
        (s2.rtsUnset rpc (rtsSignaled ||| rtsSigPending ||| rtsPStop)).modProc rpc fun p =>
          { p with pPending := 0 })) : P (s.doFork parentE slot env).2 := by
  unfold doFork
  split
  · exact h
  rename_i rpp hparent
  split
  · exact hstop
  rename_i rpc hchild
  split
  · exact h
  rename_i hempty
  split
  · exact h
  · rename_i hrecv
    refine hfork rpp rpc hparent hchild ?_ (by simpa using hrecv)
    simp only [Bool.or_eq_true, Bool.not_eq_true', not_or, isemptyp] at hempty
    simpa using hempty.2

/-- The process that `do_exit` clears. -/
def exitTarget (s : State) (endpt : Int) : Option Slot :=
  if s.whoP = pmSlot ∧ endpt ≠ endptSelf then s.isokendpt endpt else some s.whoP

theorem doExit_rule {endpt : Int} (h : P s)
    (hclear : ∀ rc, s.exitTarget endpt = some rc → P (s.clearProc rc)) : P (s.doExit endpt).2 := by
  revert hclear
  unfold doExit exitTarget
  repeat' split
  · exact fun _ => h
  · exact fun hclear => hclear _ ‹_›
  · exact fun hclear => hclear _ rfl

/-! ## Operations that are sequences of steps -/

end State

/-- The kernel calls that are made of steps alone. -/
def KernelCall.Stepwise : KernelCall → Prop
  | .exec _ | .kill _ _ | .getksig | .endksig _ | .vtimer _ _ _ _ => True
  | _ => False

theorem KernelCall.steps_any {s : State} {call : KernelCall} (hcall : call.Stepwise) :
    Steps .any s (call.run s) := by
  cases call with
  | exec endpt => exact s.steps_doExec (.inl trivial)
  | kill endpt sig => exact s.steps_doKill trivial (good_any s)
  | getksig => exact s.steps_doGetksig trivial
  | endksig endpt => exact (s.lights_doEndksig trivial).steps
  | vtimer endpt which set value =>
    exact (lights_of_erase (s.erase_doVtimer)).steps
  | _ => exact absurd hcall id

/-- The operations that are made of steps alone, with what the kernel sees to. -/
def Op.Stepwise (s : State) : Op → Prop
  | .trap _ => s.procIsRunnable s.procPtr = true
  | .lockSend dstE _ => s.MayReply dstE
  | .delivermsg rp _ => s.mfIsset rp mfDelivermsg = true
  | .store _ _ _ | .tick | .notify _ _ | .signal _ _ | .clearEndpoint _ => True
  | _ => False

theorem Op.steps_any {s : State} {o : Op} (hop : o.Stepwise s) : Steps .any s (o.run s) := by
  cases o with
  | trap t =>
    exact (s.run_trap (good_any s) (s.canTake_of_runnable hop (.inl trivial))
      (.inl trivial) (.inl trivial)).steps
  | lockSend dstE m =>
    exact (s.run_lockSend (good_any s) hop (.inl trivial) (.inl trivial)).steps
  | delivermsg rp mapped => exact s.steps_delivermsg hop (.inl trivial) mapped
  | store rp addr entry => exact (lights_of_erase (s.erase_modEntry rp addr fun _ => entry)).steps
  | tick => exact (s.lights_bspTimerIntHandler (.inl trivial)).lights.steps
  | notify src dstE => exact (s.lights_miniNotify src dstE).lights.steps
  | signal rp sig => exact (s.lights_causeSig (.inl trivial) sig).lights.steps
  | clearEndpoint rc => exact s.steps_clearEndpoint trivial rc (good_any s).live
  | _ => exact absurd hop id

end Minix.Kernel
