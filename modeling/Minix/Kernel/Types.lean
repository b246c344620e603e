/-
  Kernel/Types.lean --- the data of the kernel: constants, process table, privilege
  table, timers and the global variables the modelled functions read or write.

  The kernel is a C program over global tables.  The model keeps one record,
  `State`, with the tables as functions of the slot, and every kernel function
  becomes a function from states to states.  Pointers into the process table are
  slots, and the nil pointer is `none`.

  Three conventions are worth stating once.

  * A process number is the index of its slot less `NR_TASKS`.  The source also
    caches it in `p_nr`, which is set at boot and restored by fork; the model
    computes it from the slot (`procNr`).

  * `p_priv` may be the null pointer (boot processes that wait for their
    privileges).  The code dereferences it without a check, which on this machine
    accesses whatever lies at address zero.  The model keeps a record for that
    address, so a privilege pointer is an `Option` and `none` names that record.

  * A panic, a loop that does not end and an access outside a table stop the
    machine.  `State.halt` records that; the functions below leave the rest of the
    state as it was when they record it.

  `State.log` is history: no kernel function reads it.  It records what happened to
  messages, so that statements about whole runs can be made about a state.
-/
import Mathlib.Logic.Function.Basic
import Mathlib.Data.Fin.Basic
import Mathlib.Tactic.Simps.Basic
import Minix.Foundation.FlagWord

set_option autoImplicit false

namespace Minix.Kernel

open Minix.Foundation Function

/-! ## Table sizes and process numbers -/

/-- `NR_TASKS` -/
def nrTasks : Nat := 4

/-- `NR_PROCS` -/
def nrProcs : Nat := 256

/-- The number of slots of the process table, `NR_TASKS + NR_PROCS`. -/
def nrSlots : Nat := 260

/-- `NR_SYS_PROCS`, the size of the privilege table. -/
def nrSysProcs : Nat := 32

/-- `NR_SCHED_QUEUES` -/
def nrSchedQueues : Nat := 16

/-- An entry of the process table `proc[NR_TASKS + NR_PROCS]`. -/
abbrev Slot := Fin nrSlots

/-- The slot of INIT is one. -/
theorem initSlot_lt : 14 < nrSlots := by decide

/-- A pointer to a privilege structure; `none` is the null pointer. -/
abbrev PrivPtr := Option (Fin nrSysProcs)

/-- `proc_nr(rp)` -/
def procNr (rp : Slot) : Int := (rp.val : Int) - 4

/-- `proc_addr(n)`, where `isokprocn(n)` holds; `none` is an address outside the table. -/
def procAddr (n : Int) : Option Slot :=
  if h : 0 ≤ n + 4 ∧ n + 4 < 260 then
    some ⟨(n + 4).toNat, by unfold nrSlots; omega⟩
  else none

theorem procAddr_procNr (rp : Slot) : procAddr (procNr rp) = some rp := by
  have hlt : rp.val < 260 := rp.isLt
  have hrange : 0 ≤ procNr rp + 4 ∧ procNr rp + 4 < 260 := by
    unfold procNr
    omega
  unfold procAddr
  rw [dif_pos hrange]
  congr 1
  apply Fin.ext
  simp [procNr]

theorem procNr_of_procAddr {n : Int} {rp : Slot} (h : procAddr n = some rp) :
    procNr rp = n := by
  unfold procAddr at h
  split at h
  · cases h
    simp only [procNr]
    omega
  · simp at h

theorem procNr_injective : Function.Injective procNr := by
  intro i j h
  have hi := procAddr_procNr i
  rw [h, procAddr_procNr j] at hi
  exact (Option.some.inj hi).symm

/-! Process numbers of `minix/com.h`, as slots. -/

def idleSlot : Slot := ⟨0, by decide⟩
def clockSlot : Slot := ⟨1, by decide⟩
def systemSlot : Slot := ⟨2, by decide⟩
def hardwareSlot : Slot := ⟨3, by decide⟩
def pmSlot : Slot := ⟨4, by decide⟩
def vfsSlot : Slot := ⟨5, by decide⟩
def rsSlot : Slot := ⟨6, by decide⟩
def vmSlot : Slot := ⟨12, by decide⟩

/-- `iskerneln(n)` -/
def iskerneln (n : Int) : Bool := n < 0

/-! ## Endpoints -/

/-- `ANY` -/
def endptAny : Int := 0x7ace

/-- `NONE` -/
def endptNone : Int := 0x6ace

/-- `SELF` -/
def endptSelf : Int := 0x8ace

/-- `_ENDPOINT_GENERATION_SIZE`, `MAX_NR_TASKS + _MAX_MAGIC_PROC + 1` -/
def endpointGenerationSize : Int := 36558

/-- `_ENDPOINT_MAX_GENERATION`, `INT_MAX / _ENDPOINT_GENERATION_SIZE - 1` -/
def endpointMaxGeneration : Int := 58740

/-- `_ENDPOINT(g, p)` -/
def endpoint (g p : Int) : Int := g * endpointGenerationSize + p

/-- `_ENDPOINT_G(e)` -/
def endpointG (e : Int) : Int := (e + 1023).tdiv endpointGenerationSize

/-- `_ENDPOINT_P(e)` -/
def endpointP (e : Int) : Int := (e + 1023).tmod endpointGenerationSize - 1023

/-! ## Result codes -/

def ok : Int := 0
def eperm : Int := -1
def esrch : Int := -3
def eagain : Int := -11
def enomem : Int := -12
def efault : Int := -14
def ebusy : Int := -16
def einval : Int := -22
def enospc : Int := -28
def edom : Int := -33
def elocked : Int := -101
def ebadcall : Int := -102
def ecalldenied : Int := -104
def edeadsrcdst : Int := -105
def enotready : Int := -106
def esrcdied : Int := -108
def edstdied : Int := -109
def etrapdenied : Int := -110
def edontreply : Int := -201
def vmsuspend : Int := -996
def efaultSrc : Int := -995

/-! ## Flags -/

/-! `p_rts_flags`: a process is runnable iff the word is zero. -/

def rtsSlotFree : BitVec 16 := 0x0001
def rtsProcStop : BitVec 16 := 0x0002
def rtsSending : BitVec 16 := 0x0004
def rtsReceiving : BitVec 16 := 0x0008
def rtsSignaled : BitVec 16 := 0x0010
def rtsSigPending : BitVec 16 := 0x0020
def rtsPStop : BitVec 16 := 0x0040
def rtsNoPriv : BitVec 16 := 0x0080
def rtsNoEndpoint : BitVec 16 := 0x0100
def rtsVminhibit : BitVec 16 := 0x0200
def rtsVmrequest : BitVec 16 := 0x0800
def rtsSysLock : BitVec 16 := 0x2000
def rtsPreempted : BitVec 16 := 0x4000
def rtsNoQuantum : BitVec 16 := 0x8000

/-! `p_misc_flags`: flags that do not suspend the process. -/

def mfReplyPend : BitVec 16 := 0x0001
def mfVirtTimer : BitVec 16 := 0x0002
def mfProfTimer : BitVec 16 := 0x0004
def mfAsynmsg : BitVec 16 := 0x0010
def mfDelivermsg : BitVec 16 := 0x0040
def mfSigDelay : BitVec 16 := 0x0080
def mfScActive : BitVec 16 := 0x0100
def mfScDefer : BitVec 16 := 0x0200
def mfScTrace : BitVec 16 := 0x0400
def mfFpuInitialized : BitVec 16 := 0x1000

/-! `s_flags` of a privilege structure. -/

def preemptible : BitVec 16 := 0x0002
def billable : BitVec 16 := 0x0004
def dynPrivId : BitVec 16 := 0x0008
def sysProc : BitVec 16 := 0x0010
def checkIoPort : BitVec 16 := 0x0020
def checkIrq : BitVec 16 := 0x0040
def checkMem : BitVec 16 := 0x0080

/-! Flags of an entry of an asynchronous message table. -/

def amfValid : BitVec 32 := 0x1
def amfDone : BitVec 32 := 0x2
def amfNotify : BitVec 32 := 0x4
def amfNoreply : BitVec 32 := 0x8

/-! Signals the kernel itself raises, as bits of a `sigset_t`. -/

def sigtrap : Nat := 5
def sigkill : Nat := 9
def sigterm : Nat := 15
def sigvtalrm : Nat := 24
def sigprof : Nat := 25
def sigksig : Nat := 30
def signdelay : Nat := 31

/-- `USER_PRIV_ID`, the structure that unprivileged processes share. -/
def userPrivId : Fin nrSysProcs := ⟨14, by decide⟩

/-- The set of signals that holds `sig` alone, as `sigaddset` builds it. -/
def sigbit (sig : Nat) : BitVec 32 := 1#32 <<< sig

/-! ## Machine arithmetic -/

/-- A value stored in a `clock_t` (32 bits, signed). -/
def wrap32 (x : Int) : Int := x.bmod (2 ^ 32)

/-- A value stored in a `char` (8 bits, signed). -/
def wrap8 (x : Int) : Int := x.bmod (2 ^ 8)

/-- `TMR_NEVER` -/
def tmrNever : Int := 2 ^ 31 - 1

/-! ## Messages and timers -/

/-- A message.  `m2_l1` and `m2_l2` carry the argument and the time stamp of a
notification; `rest` stands for the bytes the kernel only copies. -/
structure Message where
  mSource : Int
  mType : Int
  m2l1 : Int
  m2l2 : Int
  rest : Nat
  deriving DecidableEq, Repr, Inhabited

/-- An entry of an asynchronous message table in a process' memory. -/
structure AsynMsg where
  flags : BitVec 32
  dst : Int
  result : Int
  msg : Message
  deriving DecidableEq, Repr, Inhabited

/-- `sizeof(asynmsg_t)` -/
def asynmsgSize : Nat := 48

/-- The timers of the kernel: one per process, one per privilege structure, and
the static timer of `balance_queues`. -/
inductive TimerId where
  | deadline (rp : Slot)
  | alarm (sp : PrivPtr)
  | queue
  deriving DecidableEq, Repr

/-- The watchdog functions that timers run. -/
inductive Watchdog where
  | reachDeadline
  | causeAlarm
  | balanceQueues
  deriving DecidableEq, Repr

/-- `timer_t` -/
structure Timer where
  tmrNext : Option TimerId
  tmrExpTime : Int
  tmrFunc : Option Watchdog
  tmrArg : Int
  deriving DecidableEq, Repr, Inhabited

/-- `p_vmrequest.type`: the operation a memory request suspended. -/
inductive VmSuspendType where
  | sysNone
  | kernelcall
  | delivermsg
  | map
  deriving DecidableEq, Repr, Inhabited

/-! ## Table entries -/

/-- `struct proc`, without the fields no modelled function uses. -/
structure Proc where
  pPriv : PrivPtr
  pRtsFlags : BitVec 16
  pMiscFlags : BitVec 16
  pDeadline : Timer
  pPriority : Int
  pMaxPriority : Int
  pTicksLeft : Int
  pQuantumSize : Int
  pNextpagefault : Option Slot
  pUserTime : Int
  pSysTime : Int
  pVirtLeft : Int
  pProfLeft : Int
  pNextready : Option Slot
  pCallerQ : Option Slot
  pQLink : Option Slot
  pGetfromE : Int
  pSendtoE : Int
  pPending : BitVec 32
  pEndpoint : Int
  pSendmsg : Message
  pDelivermsg : Message
  pDelivermsgVir : Nat
  pDelivermsgLin : Nat
  pRetreg : Int
  vmNextrestart : Option Slot
  vmNextrequestor : Option Slot
  vmType : VmSuspendType
  vmTarget : Int
  vmResult : Int
  deriving DecidableEq, Repr, Inhabited

/-- `struct io_range` and `struct mem_range`. -/
structure Range where
  base : Nat
  limit : Nat
  deriving DecidableEq, Repr

/-- The kernel calls, I/O ports, memory ranges, IRQ lines and grant table that a
privilege structure gives to its process. -/
structure Resources where
  sKCallMask : BitVec 64
  sNrIoRange : Int
  sIoTab : List Range
  sNrMemRange : Int
  sMemTab : List Range
  sNrIrq : Int
  sIrqTab : List Int
  sGrantTable : Nat
  sGrantEntries : Int
  deriving DecidableEq, Repr

/-- `struct priv`, without the fields no modelled function uses. -/
structure Priv where
  sProcNr : Int
  sId : Fin nrSysProcs
  sFlags : BitVec 16
  sAsyntab : Nat
  sAsynsize : Nat
  sTrapMask : BitVec 16
  sIpcTo : BitVec 32
  sNotifyPending : BitVec 32
  sIntPending : BitVec 32
  sSigPending : BitVec 32
  sAlarmTimer : Timer
  sRes : Resources
  deriving DecidableEq, Repr

/-- Assignment to `p_rts_flags`. -/
def Proc.setRts (p : Proc) (f : BitVec 16) : Proc := { p with pRtsFlags := f }

/-- Assignment to `p_misc_flags`. -/
def Proc.setMisc (p : Proc) (f : BitVec 16) : Proc := { p with pMiscFlags := f }

/-- `sched_type`: 0, 1 and 2 in the source. -/
inductive SchedType where
  | roundRobin
  | lottery
  | edf
  deriving DecidableEq, Repr, Inhabited

/-- Why the machine stopped. -/
inductive Halt where
  /-- The kernel called `minix_panic`. -/
  | panic
  /-- A loop does not end. -/
  | hang
  /-- An access outside a table or through a nil pointer. -/
  | wild
  deriving DecidableEq, Repr

/-- What happened to messages, for statements about runs. -/
inductive Event where
  /-- `src` blocked in a send to `dst`. -/
  | blocked (src dst : Slot)
  /-- `dst` took the message of the blocked sender `src`, asking for a message from
  `wanted` (`none` for any source). -/
  | taken (src dst : Slot) (wanted : Option Slot)
  /-- `rc` lost its endpoint. -/
  | died (rc : Slot)
  /-- `dst` lost its endpoint while `src` was blocked sending to it. -/
  | orphaned (src dst : Slot)
  /-- `src` lost its endpoint while it was blocked sending to `dst`. -/
  | withdrawn (src dst : Slot)
  /-- `QueueMess` put a message into the delivery slot of `dst`. -/
  | queued (dst : Slot) (m : Message)
  /-- `delivermsg` copied the message out of the delivery slot of `dst`. -/
  | copied (dst : Slot) (m : Message)
  /-- `do_exec` discarded the message in the delivery slot of `dst`. -/
  | discarded (dst : Slot) (m : Message)
  deriving DecidableEq, Repr

/-- The global state of the kernel. -/
structure State where
  proc : Slot → Proc
  priv : PrivPtr → Priv
  rdyHead : Int → Option Slot
  rdyTail : Int → Option Slot
  procPtr : Slot
  billPtr : Slot
  schedType : SchedType
  clockTimers : Option TimerId
  nextTimeout : Int
  realtime : Int
  lostTicks : Int
  queueTimer : Timer
  vmrequest : Option Slot
  vmrestart : Option Slot
  pagefaults : Option Slot
  vmRunning : Bool
  whoP : Slot
  /-- The asynchronous message tables in the memory of the processes, by address. -/
  amem : Slot → Nat → AsynMsg
  log : List Event
  halt : Option Halt

namespace State

/-! ## Reading and writing the state -/

/-- Write to the table entry of a process. -/
@[simps priv rdyHead rdyTail procPtr billPtr schedType clockTimers nextTimeout realtime
  lostTicks queueTimer vmrequest vmrestart pagefaults vmRunning whoP amem log halt]
def modProc (s : State) (rp : Slot) (f : Proc → Proc) : State :=
  { s with proc := update s.proc rp (f (s.proc rp)) }

/-- Write to a privilege structure. -/
@[simps proc rdyHead rdyTail procPtr billPtr schedType clockTimers nextTimeout realtime
  lostTicks queueTimer vmrequest vmrestart pagefaults vmRunning whoP amem log halt]
def modPriv (s : State) (sp : PrivPtr) (f : Priv → Priv) : State :=
  { s with priv := update s.priv sp (f (s.priv sp)) }

/-- The machine stops. -/
@[simps]
def stop (s : State) (h : Halt) : State := { s with halt := some h }

/-- Add an event to the history. -/
@[simps]
def record (s : State) (e : Event) : State := { s with log := e :: s.log }

/-- `priv(rp)` -/
def privOf (s : State) (rp : Slot) : Priv := s.priv (s.proc rp).pPriv

/-- `proc_is_runnable(rp)` -/
def procIsRunnable (s : State) (rp : Slot) : Bool := (s.proc rp).pRtsFlags == 0#16

/-- `isemptyp(rp)` -/
def isemptyp (s : State) (rp : Slot) : Bool := (s.proc rp).pRtsFlags == rtsSlotFree

/-- `RTS_ISSET(rp, f)` -/
def rtsIsset (s : State) (rp : Slot) (f : BitVec 16) : Bool := isSet (s.proc rp).pRtsFlags f

/-- `rp->p_misc_flags & f`, for a single flag. -/
def mfIsset (s : State) (rp : Slot) (f : BitVec 16) : Bool := isSet (s.proc rp).pMiscFlags f

/-- `isokendpt(e, &p)`: the slot of a live process with this endpoint. -/
def isokendpt (s : State) (e : Int) : Option Slot :=
  match procAddr (endpointP e) with
  | none => none
  | some rp =>
      if s.isemptyp rp then none
      else if (s.proc rp).pEndpoint ≠ e then none
      else some rp

/-- `may_send_to(rp, nr)` -/
def maySendTo (s : State) (rp dst : Slot) : Bool :=
  (s.privOf rp).sIpcTo.getLsbD (s.privOf dst).sId.val

variable (s : State) (rp : Slot) (sp : PrivPtr)

@[simp] theorem modProc_proc (f : Proc → Proc) (j : Slot) :
    (s.modProc rp f).proc j = if j = rp then f (s.proc rp) else s.proc j := by
  simp only [modProc, update_apply]

@[simp] theorem modPriv_priv (f : Priv → Priv) (p : PrivPtr) :
    (s.modPriv sp f).priv p = if p = sp then f (s.priv sp) else s.priv p := by
  simp only [modPriv, update_apply]

/-- What a write to an entry does not change is the same in every entry. -/
theorem modProc_congr {α : Type} (k : Proc → α) {f : Proc → Proc}
    (hk : k (f (s.proc rp)) = k (s.proc rp)) (i : Slot) :
    k ((s.modProc rp f).proc i) = k (s.proc i) := by
  rw [modProc_proc]
  split_ifs with hi
  · rw [hi, hk]
  · rfl

theorem modProc_proc_self {f : Proc → Proc} : (s.modProc rp f).proc rp = f (s.proc rp) := by
  simp

theorem modProc_proc_of_ne (f : Proc → Proc) {j : Slot} (h : j ≠ rp) :
    (s.modProc rp f).proc j = s.proc j := by
  simp [h]

theorem modProc_modProc (f g : Proc → Proc) :
    (s.modProc rp f).modProc rp g = s.modProc rp fun p => g (f p) := by
  simp only [modProc, update_self, update_idem]

theorem modProc_comm {j : Slot} (h : rp ≠ j) (f g : Proc → Proc) :
    (s.modProc rp f).modProc j g = (s.modProc j g).modProc rp f := by
  simp only [modProc, update_of_ne h, update_of_ne h.symm,
    update_comm h]

theorem isokendpt_eq_some_iff {e : Int} :
    s.isokendpt e = some rp ↔
      procNr rp = endpointP e ∧ s.isemptyp rp = false ∧ (s.proc rp).pEndpoint = e := by
  unfold isokendpt
  constructor
  · intro h
    cases haddr : procAddr (endpointP e) with
    | none => simp [haddr] at h
    | some i =>
      simp only [haddr] at h
      split at h
      · simp at h
      · split at h
        · simp at h
        · rename_i hempty hep
          cases h
          exact ⟨procNr_of_procAddr haddr, by simpa using hempty, by simpa using hep⟩
  · rintro ⟨hnr, hempty, hep⟩
    rw [← hnr, procAddr_procNr]
    simp [hempty, hep]

end State

end Minix.Kernel
