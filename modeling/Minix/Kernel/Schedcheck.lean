/-
  Kernel/Schedcheck.lean --- `schedcheck`, which decides what runs when the kernel
  returns to a process, and the boot state of `main.c`.

  `schedcheck` keeps the current process if it is still runnable.  Otherwise it puts
  a preempted process back at the head of its queue, gives a process whose quantum
  is used up a new place, and picks a process.  Then it works off what must be done
  before the process may run: deliver a message, perform a system call that tracing
  deferred, report to a tracer.  If that blocks the process, it picks again.
-/
import Minix.Kernel.System

set_option autoImplicit false

namespace Minix.Kernel

open Minix.Foundation

/-- What `schedcheck` finds in its environment at each turn: what `rand()` returns,
whether the memory of the process can be written, and the registers of a deferred
call. -/
structure SchedEnv where
  rand : Nat → Nat
  mapped : Nat → Bool
  deferred : Nat → Trap

namespace State

/-! ## Picking a new process -/

/-- The part of `schedcheck` before `pick_proc`: the current process goes back to a
queue if only its preemption or its quantum kept it off. -/
def requeueCurrent (s : State) : State :=
  let rp := s.procPtr
  let s1 :=
    if s.rtsIsset rp rtsPreempted then
      let s' := s.modProc rp fun p => p.setRts (clearBits p.pRtsFlags rtsPreempted)
      if s'.procIsRunnable rp then s'.enqueueHead rp else s'
    else s
  if s1.rtsIsset rp rtsNoQuantum then s1.rtsUnset rp rtsNoQuantum else s1

/-- `proc_ptr = pick_proc()`.  If there is nothing to run, IDLE becomes the current
process and the processor halts until the next interrupt; the flag says so. -/
def pickNew (s : State) (rand : Nat) : Bool × State :=
  match s.requeueCurrent.pickProc rand with
  | (some rp, s1) => (true, { s1 with procPtr := rp })
  | (none, s1) => (false, ({ s1 with procPtr := idleSlot }).bill idleSlot)

/-! ## Work before the process runs -/

/-- The flags that `schedcheck` works off. -/
def mfWork : BitVec 16 := mfDelivermsg ||| mfScDefer ||| mfScTrace ||| mfScActive

/-- One turn of the loop at `check_misc_flags`; the flag is set if the loop breaks. -/
def workOff (s : State) (mapped : Bool) (deferred : Trap) : Bool × State :=
  let rp := s.procPtr
  if s.mfIsset rp mfDelivermsg then (false, (s.delivermsg rp mapped).2)
  else if s.mfIsset rp mfScDefer then
    let s1 := s.trap deferred
    (false,
      if s1.mfIsset rp mfSigDelay && !s1.rtsIsset rp rtsSending then s1.sigDelayDone rp else s1)
  else if s.mfIsset rp mfScTrace then
    if !s.mfIsset rp mfScActive then (true, s)
    else
      (false, (s.modProc rp fun p =>
        p.setMisc (clearBits p.pMiscFlags (mfScTrace ||| mfScActive))).causeSig rp sigtrap)
  else (true, s.modProc rp fun p => p.setMisc (clearBits p.pMiscFlags mfScActive))

/-- The loop at `check_misc_flags`, for at most `fuel` turns.  Returns the process
that runs, or `none` if the processor is idle. -/
def checkMiscFlags (env : SchedEnv) : Nat → State → Option Slot × State
  | 0, s => (none, s.stop .hang)
  | fuel + 1, s =>
      if s.halt ≠ none then (none, s)
      else if (s.proc s.procPtr).pMiscFlags &&& mfWork = 0#16 then (some s.procPtr, s)
      else
        match s.workOff (env.mapped fuel) (env.deferred fuel) with
        | (true, s) => (some s.procPtr, s)
        | (false, s) =>
            if s.procIsRunnable s.procPtr then checkMiscFlags env fuel s
            else
              match s.pickNew (env.rand fuel) with
              | (true, s) => checkMiscFlags env fuel s
              | (false, s) => (none, s)

/-- `schedcheck()`, with a bound on the turns of its loop. -/
def schedcheck (s : State) (env : SchedEnv) (fuel : Nat) : Option Slot × State :=
  if s.procIsRunnable s.procPtr then checkMiscFlags env fuel s
  else
    match s.pickNew (env.rand fuel) with
    | (true, s) => checkMiscFlags env fuel s
    | (false, s) => (none, s)

end State

/-! ## The boot image -/

/-- An entry of `image[]` in `table.c`. -/
structure BootImage where
  rp : Slot
  fullvm : Bool
  quantum : Int
  priority : Int
  deriving DecidableEq, Repr

/-- `image[]` -/
def image : List BootImage :=
  [ ⟨idleSlot, false, 0, 0⟩, ⟨clockSlot, false, 8, 0⟩, ⟨systemSlot, false, 8, 0⟩,
    ⟨hardwareSlot, false, 8, 0⟩, ⟨pmSlot, false, 32, 4⟩, ⟨vfsSlot, false, 32, 5⟩,
    ⟨rsSlot, false, 4, 4⟩, ⟨⟨7, by decide⟩, true, 4, 3⟩, ⟨⟨8, by decide⟩, true, 4, 2⟩,
    ⟨⟨9, by decide⟩, true, 4, 1⟩, ⟨⟨10, by decide⟩, true, 4, 4⟩, ⟨⟨11, by decide⟩, true, 32, 5⟩,
    ⟨vmSlot, false, 32, 2⟩, ⟨⟨13, by decide⟩, true, 32, 5⟩, ⟨⟨14, by decide⟩, true, 8, 8⟩ ]

/-- A timer that was never set. -/
def zeroTimer : Timer := ⟨none, 0, none, 0⟩

/-- A message of zeros. -/
def zeroMessage : Message := ⟨0, 0, 0, 0, 0⟩

/-- A free slot of the process table before the boot image is loaded. -/
def freeProc (rp : Slot) : Proc where
  pPriv := none
  pRtsFlags := rtsSlotFree
  pMiscFlags := 0
  pDeadline := zeroTimer
  pPriority := 0
  pMaxPriority := 0
  pTicksLeft := 0
  pQuantumSize := 0
  pNextpagefault := none
  pUserTime := 0
  pSysTime := 0
  pVirtLeft := 0
  pProfLeft := 0
  pNextready := none
  pCallerQ := none
  pQLink := none
  pGetfromE := 0
  pSendtoE := 0
  pPending := 0
  pEndpoint := endpoint 0 (procNr rp)
  pSendmsg := zeroMessage
  pDelivermsg := zeroMessage
  pDelivermsgVir := 0
  pDelivermsgLin := 0
  pRetreg := 0
  vmNextrestart := none
  vmNextrequestor := none
  vmType := .sysNone
  vmTarget := 0
  vmResult := 0

/-- No resources: the tables of a privilege structure before anything is put in. -/
def zeroResources : Resources where
  sKCallMask := 0
  sNrIoRange := 0
  sIoTab := List.replicate 32 ⟨0, 0⟩
  sNrMemRange := 0
  sMemTab := List.replicate 10 ⟨0, 0⟩
  sNrIrq := 0
  sIrqTab := List.replicate 4 0
  sGrantTable := 0
  sGrantEntries := 0

/-- The privileges after `main`: those of the kernel tasks and of RS are set, and
nobody is associated with the others.  RS may send to the four tasks, which had
privileges before it; the tasks may send to nobody. -/
def bootPriv (sp : PrivPtr) : Priv :=
  let id : Fin nrSysProcs := sp.getD ⟨0, by decide⟩
  let free : Priv :=
    { sProcNr := endptNone, sId := id, sFlags := 0, sAsyntab := 0, sAsynsize := 0,
      sTrapMask := 0, sIpcTo := 0, sNotifyPending := 0, sIntPending := 0, sSigPending := 0,
      sAlarmTimer := zeroTimer, sRes := zeroResources }
  match sp with
  | none => free
  | some id =>
      if id.val = 0 then { free with sProcNr := -4, sFlags := sysProc ||| billable }
      else if id.val = 1 ∨ id.val = 2 then
        { free with sProcNr := (id.val : Int) - 4, sFlags := sysProc, sTrapMask := 0x4 }
      else if id.val = 3 then { free with sProcNr := -1, sFlags := sysProc }
      else if id.val = 6 then
        { free with sProcNr := 2, sFlags := sysProc ||| preemptible, sTrapMask := 0xffff,
                    sIpcTo := 0xf, sRes := { zeroResources with sKCallMask := BitVec.allOnes 64 } }
      else free

/-- The state in which `main` starts to load the boot image. -/
def emptyState : State where
  proc := freeProc
  priv := bootPriv
  rdyHead _ := none
  rdyTail _ := none
  procPtr := idleSlot
  billPtr := idleSlot
  schedType := .roundRobin
  clockTimers := none
  nextTimeout := 0
  realtime := 0
  lostTicks := 0
  queueTimer := zeroTimer
  vmrequest := none
  vmrestart := none
  pagefaults := none
  vmRunning := false
  whoP := hardwareSlot
  amem _ _ := ⟨0, 0, 0, zeroMessage⟩
  log := []
  halt := none

namespace State

/-- Kernel tasks and RS may run at once; they have privileges. -/
def bootSchedulable (rp : Slot) : Bool := decide (rp.val < 4) || rp == rsSlot

/-- The privilege structure that `main` gives to a process of the boot image: the one
that `get_priv` finds for a process that may run at once, or none. -/
def bootPrivPtr (rp : Slot) : PrivPtr :=
  if bootSchedulable rp then some ⟨min rp.val 31, by unfold nrSysProcs; omega⟩ else none

/-- The entry of a process of the boot image is filled in. -/
def loadImage (s : State) (ip : BootImage) : State :=
  s.modProc ip.rp fun p =>
    { p with
      pMaxPriority := ip.priority
      pPriority := ip.priority
      pQuantumSize := ip.quantum
      pTicksLeft := ip.quantum
      pPriv := bootPrivPtr ip.rp }

/-- A flag that is set only if `c` holds. -/
def rtsSetIf (s : State) (c : Bool) (rp : Slot) (f : BitVec 16) : State :=
  if c then s.rtsSet rp f else s

/-- One iteration of the loop of `main` over the boot image. -/
def bootProc (s : State) (ip : BootImage) : State :=
  let s1 := s.loadImage ip
  let s2 := s1.rtsSetIf (!bootSchedulable ip.rp) ip.rp rtsNoPriv
  let s3 := s2.rtsSetIf ip.fullvm ip.rp rtsVminhibit
  let s4 := s3.rtsSetIf (ip.rp == hardwareSlot || ip.rp == idleSlot) ip.rp rtsProcStop
  s4.rtsUnset ip.rp rtsSlotFree

/-- The loop of `main` over the boot image. -/
def bootLoop (s : State) : List BootImage → State
  | [] => s
  | ip :: ips => (s.bootProc ip).bootLoop ips

end State

/-- The state in which the kernel starts to run processes. -/
def boot : State := emptyState.bootLoop image

end Minix.Kernel
