/-
  Kernel/Run.lean --- runs of the kernel.

  The kernel is entered by traps of the current process, by interrupts, and by its
  own tasks; what it does between two returns to a process is an operation.  A run
  is a sequence of operations from a start state.  Results about runs say which
  operations they are about with a predicate on the state and the operation.
-/
import Mathlib.Logic.Relation
import Minix.Kernel.Schedcheck
import Minix.Kernel.Privctl

set_option autoImplicit false

namespace Minix.Kernel

open Minix.Foundation Relation

/-- The calls of the SYSTEM task that are modelled. -/
inductive KernelCall where
  | nice (endpt pri : Int)
  | chdeadline (n deadline : Int)
  | fork (parentE slot : Int) (env : ForkEnv)
  | exit (endpt : Int)
  | exec (endpt : Int)
  | kill (endpt : Int) (sig : Nat)
  | getksig
  | endksig (endpt : Int)
  | privctl (endpt : Int) (request : PrivRequest)
  | vtimer (endpt which : Int) (set : Bool) (value : Int)
  | setalarm (expTime : Int) (useAbsTime : Bool)

/-- What a kernel call does to the state. -/
def KernelCall.run (s : State) : KernelCall → State
  | .nice endpt pri => (s.doNice endpt pri).2
  | .chdeadline n deadline => (s.doChdeadline n deadline).2
  | .fork parentE slot env => (s.doFork parentE slot env).2
  | .exit endpt => (s.doExit endpt).2
  | .exec endpt => (s.doExec endpt).2
  | .kill endpt sig => (s.doKill endpt sig).2
  | .getksig => s.doGetksig
  | .endksig endpt => (s.doEndksig endpt).2
  | .privctl endpt request => (s.doPrivctl endpt request).2
  | .vtimer endpt which set value => (s.doVtimer endpt which set value).2.2
  | .setalarm expTime useAbsTime => (s.doSetalarm expTime useAbsTime).2.2

/-- The operations of the kernel. -/
inductive Op where
  /-- `RTS_SET` or `RTS_LOCK_SET` -/
  | rtsSet (rp : Slot) (f : BitVec 16)
  /-- `RTS_UNSET` or `RTS_LOCK_UNSET` -/
  | rtsUnset (rp : Slot) (f : BitVec 16)
  /-- `RTS_LOCK_SETFLAGS` -/
  | rtsSetflags (rp : Slot) (f : BitVec 16)
  /-- The part of `schedcheck` that puts the current process back on a queue. -/
  | requeue
  | schedcheck (env : SchedEnv) (fuel : Nat)
  /-- Another process becomes the current one. -/
  | dispatch (rp : Slot)
  /-- A system call of the current process. -/
  | trap (t : Trap)
  /-- A process writes to an entry of a message table in its memory. -/
  | store (rp : Slot) (addr : Nat) (entry : AsynMsg)
  /-- The current task sends a reply. -/
  | lockSend (dstE : Int) (m : Buffer)
  /-- The timer interrupt. -/
  | tick
  /-- The CLOCK task handles the notification that timers are due. -/
  | clockTask
  | balanceQueues
  | notify (src : Slot) (dstE : Int)
  | signal (rp : Slot) (sig : Nat)
  | clearEndpoint (rc : Slot)
  | delivermsg (rp : Slot) (mapped : Bool)
  /-- The SYSTEM task handles a request of `caller`. -/
  | request (caller : Slot) (call : KernelCall)

/-- What an operation does to the state. -/
def Op.run (s : State) : Op → State
  | .rtsSet rp f => s.rtsSet rp f
  | .rtsUnset rp f => s.rtsUnset rp f
  | .rtsSetflags rp f => s.rtsSetflags rp f
  | .requeue => s.requeueCurrent
  | .schedcheck env fuel => (s.schedcheck env fuel).2
  | .dispatch rp => { s with procPtr := rp }
  | .trap t => s.trap t
  | .store rp addr entry => s.modEntry rp addr fun _ => entry
  | .lockSend dstE m => (s.lockSend dstE m).2
  | .tick => s.bspTimerIntHandler
  | .clockTask => s.clockTask
  | .balanceQueues => s.balanceQueues
  | .notify src dstE => (s.miniNotify src dstE).2
  | .signal rp sig => s.causeSig rp sig
  | .clearEndpoint rc => s.clearEndpoint rc
  | .delivermsg rp mapped => (s.delivermsg rp mapped).2
  | .request caller call => call.run { s with whoP := caller }

/-- `s'` follows on `s` by an operation that the run allows. -/
def Follows (allowed : State → Op → Prop) (s s' : State) : Prop :=
  ∃ op : Op, allowed s op ∧ s' = op.run s

/-- A run of allowed operations leads from `s` to `s'`. -/
abbrev Reaches (allowed : State → Op → Prop) : State → State → Prop :=
  ReflTransGen (Follows allowed)

/-- The start of the kernel with the scheduler of the boot monitor's choice. -/
def bootWith (schedulerType : Int) : State := boot.setScheduler schedulerType

/-- A run of allowed operations leads from the start of the kernel to `s`. -/
def Reachable (allowed : State → Op → Prop) (s : State) : Prop :=
  ∃ schedulerType, Reaches allowed (bootWith schedulerType) s

theorem Reachable.mono {allowed allowed' : State → Op → Prop} {s : State}
    (h : Reachable allowed s) (himp : ∀ t op, allowed t op → allowed' t op) :
    Reachable allowed' s := by
  obtain ⟨schedulerType, hrun⟩ := h
  refine ⟨schedulerType, hrun.lift id ?_⟩
  rintro t t' ⟨op, hop, rfl⟩
  exact ⟨op, himp t op hop, rfl⟩

/-- What holds at the start and is kept by every allowed operation holds in every
state of a run. -/
theorem Reaches.invariant {allowed : State → Op → Prop} {s s' : State} (h : Reaches allowed s s')
    (inv : State → Prop) (hstart : inv s)
    (hstep : ∀ t op, inv t → allowed t op → inv (Op.run t op)) : inv s' := by
  induction h with
  | refl => exact hstart
  | tail _ hfollows ih =>
    obtain ⟨op, hallowed, rfl⟩ := hfollows
    exact hstep _ op ih hallowed

/-- Running a list of operations. -/
def runOps (s : State) : List Op → State
  | [] => s
  | op :: ops => runOps (op.run s) ops

/-- Every operation of the list is allowed when its turn comes. -/
def AllowedRun (allowed : State → Op → Prop) (s : State) : List Op → Prop
  | [] => True
  | op :: ops => allowed s op ∧ AllowedRun allowed (op.run s) ops

instance {allowed : State → Op → Prop} [∀ s op, Decidable (allowed s op)] (s : State)
    (ops : List Op) : Decidable (AllowedRun allowed s ops) := by
  induction ops generalizing s with
  | nil => exact .isTrue trivial
  | cons op ops ih => exact @instDecidableAnd _ _ _ (ih _)

theorem reaches_runOps {allowed : State → Op → Prop} {s : State} {ops : List Op}
    (h : AllowedRun allowed s ops) : Reaches allowed s (runOps s ops) := by
  induction ops generalizing s with
  | nil => exact .refl
  | cons op ops ih => exact ReflTransGen.head ⟨op, h.1, rfl⟩ (ih h.2)

end Minix.Kernel
