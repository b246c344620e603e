/-
  Kernel/System.lean --- the kernel calls that change the process table, run by the
  SYSTEM task, and the delivery of messages to the memory of a process.

  A kernel call finds the process it is about through an endpoint (`isokendpt`) and
  returns an error if there is none; `do_chdeadline` and the child slot of `do_fork`
  use a process number without a check.
-/
import Minix.Kernel.Clock

set_option autoImplicit false

namespace Minix.Kernel

open Minix.Foundation

/-- What a fork request brings along: the result of `newmap`, the address that
`umap_local` finds for the message buffer in the child, and `PFF_VMINHIBIT`. -/
structure ForkEnv where
  newmap : Int
  delivermsgLin : Nat
  vminhibit : Bool

namespace State

/-! ## Losing an endpoint -/

/-- `*xpp = (*xpp)->p_q_link`, if the walk over the queue has found `rc`. -/
def unlinkSender (s : State) (rc : Slot) (xpp : Ref Slot Slot) : State :=
  match s.callerLinks.get xpp with
  | none => s
  | some _ => s.setCallerLink xpp (s.proc rc).pQLink

/-- The part of `clear_endpoint` for a process that is itself blocked sending: take
it off the queue of its destination. -/
def withdrawSender (s : State) (rc : Slot) : State :=
  if s.rtsIsset rc rtsSending then
    match s.isokendpt (s.proc rc).pSendtoE with
    | none => s.stop .panic
    | some target =>
        match s.callerLinks.seek (fun xp => xp == rc) (nrSlots + 1) (.head target) with
        | none => s.stop .hang
        | some xpp =>
            ((s.unlinkSender rc xpp).modProc rc fun p =>
              p.setRts (clearBits p.pRtsFlags rtsSending)).record (.withdrawn rc target)
  else s

/-- The part of the loop of `clear_endpoint` for one process: forget its pending
notification from `rc`, and release it if it waits for `rc`. -/
def releaseWaiter (s : State) (rc rp : Slot) : State :=
  if s.isemptyp rp then s
  else
    let s1 := s.modPriv (s.proc rp).pPriv fun sp =>
      { sp with sNotifyPending := sp.sNotifyPending &&& ~~~(1#32 <<< (s.privOf rc).sId.val) }
    let s2 :=
      if s1.rtsIsset rp rtsReceiving && (s1.proc rp).pGetfromE == (s1.proc rc).pEndpoint then
        (s1.modProc rp fun p => { p with pRetreg := esrcdied }).rtsUnset rp rtsReceiving
      else s1
    if s2.rtsIsset rp rtsSending && (s2.proc rp).pSendtoE == (s2.proc rc).pEndpoint then
      ((s2.modProc rp fun p => { p with pRetreg := edstdied }).rtsUnset rp rtsSending).record
        (.orphaned rp rc)
    else s2

/-- The loop of `clear_endpoint` over the process table. -/
def releaseWaiters (s : State) (rc : Slot) : List Slot → State
  | [] => s
  | rp :: rps => (s.releaseWaiter rc rp).releaseWaiters rc rps

/-- `PM_PROC_NR`, `VFS_PROC_NR` and `VM_PROC_NR` as endpoints. -/
def vitalEndpoints : List Int := [0, 1, 8]

/-- `clear_endpoint(rc)` -/
def clearEndpoint (s : State) (rc : Slot) : State :=
  if s.isemptyp rc then s.stop .panic
  else if (s.proc rc).pEndpoint ∈ vitalEndpoints then s.stop .panic
  else
    let s1 := (s.rtsSet rc rtsNoEndpoint).record (.died rc)
    let s2 :=
      if isSet (s1.privOf rc).sFlags sysProc then
        s1.modPriv (s1.proc rc).pPriv fun sp => { sp with sAsynsize := 0 }
      else s1
    let s3 := (s2.withdrawSender rc).modProc rc fun p =>
      p.setRts (clearBits p.pRtsFlags rtsReceiving)
    s3.releaseWaiters rc (List.finRange nrSlots)

/-! ## Exit, fork and exec -/

/-- `clear_proc(rc)`, without the interrupt hooks. -/
def clearProc (s : State) (rc : Slot) : State :=
  if s.isemptyp rc then s
  else
    let s1 := s.clearEndpoint rc
    if s1.halt ≠ none then s1
    else
      let s2 := s1.resetTimer (.alarm (s1.proc rc).pPriv)
      let s3 := (s2.resetTimer (.deadline rc)).modTimer (.deadline rc) fun t =>
        { t with tmrExpTime := 0 }
      let s4 := (s3.rtsSetflags rc rtsSlotFree).modProc rc fun p =>
        p.setMisc (clearBits p.pMiscFlags mfFpuInitialized)
      if isSet (s4.privOf rc).sFlags sysProc then
        s4.modPriv (s4.proc rc).pPriv fun sp => { sp with sProcNr := endptNone }
      else s4

/-- `do_exit(m_ptr)`: only PM may exit another process than itself. -/
def doExit (s : State) (endpt : Int) : Int × State :=
  if s.whoP = pmSlot ∧ endpt ≠ endptSelf then
    match s.isokendpt endpt with
    | none => (einval, s)
    | some rc => (ok, s.clearProc rc)
  else (edontreply, s.clearProc s.whoP)

/-- The generation of the next process in a slot. -/
def nextGeneration (gen : Int) : Int :=
  if endpointMaxGeneration ≤ gen + 1 then 1 else gen + 1

/-- The entry of the child in slot `rpc`: the parent's entry with some fields set
anew. -/
def forkedProc (parent : Proc) (rpc : Slot) (oldEndpoint : Int) (sysParent : Bool)
    (delivermsgLin : Nat) : Proc :=
  { parent with
    pEndpoint := endpoint (nextGeneration (endpointG oldEndpoint)) (procNr rpc)
    pRetreg := 0
    pUserTime := 0
    pSysTime := 0
    pMiscFlags := clearBits parent.pMiscFlags (mfVirtTimer ||| mfProfTimer ||| mfScTrace)
    pVirtLeft := 0
    pProfLeft := 0
    pTicksLeft := (parent.pTicksLeft + 1).tdiv 2
    pPriv := if sysParent then some userPrivId else parent.pPriv
    pRtsFlags := if sysParent then parent.pRtsFlags ||| rtsNoPriv else parent.pRtsFlags
    pDelivermsgLin := delivermsgLin }

/-- `do_fork(m_ptr)` with the parent's endpoint and the child's slot number. -/
def doFork (s : State) (parentE slot : Int) (env : ForkEnv) : Int × State :=
  match s.isokendpt parentE with
  | none => (einval, s)
  | some rpp =>
      match procAddr slot with
      | none => (einval, s.stop .wild)
      | some rpc =>
          if s.isemptyp rpp || !s.isemptyp rpc then (einval, s)
          else if !s.rtsIsset rpp rtsReceiving then (einval, s)
          else
            let parent := s.proc rpp
            let child := forkedProc parent rpc (s.proc rpc).pEndpoint
              (isSet (s.privOf rpp).sFlags sysProc) env.delivermsgLin
            let s1 := (s.modProc rpc fun _ => child).modProc rpp fun p =>
              { p with pTicksLeft := parent.pTicksLeft.tdiv 2 }
            let s2 := if env.vminhibit then s1.rtsSet rpc rtsVminhibit else s1
            let s3 := s2.rtsUnset rpc (rtsSignaled ||| rtsSigPending ||| rtsPStop)
            (env.newmap, s3.modProc rpc fun p => { p with pPending := 0 })

/-- `do_exec(m_ptr)` -/
def doExec (s : State) (endpt : Int) : Int × State :=
  match s.isokendpt endpt with
  | none => (einval, s)
  | some rp =>
      let s1 :=
        if s.mfIsset rp mfDelivermsg then
          let s' := (s.modProc rp fun p =>
            p.setMisc (clearBits p.pMiscFlags mfDelivermsg)).record
              (.discarded rp (s.proc rp).pDelivermsg)
          s'.modProc rp fun p => { p with pDelivermsgLin := 0 }
        else s
      let s2 := s1.rtsUnset rp rtsReceiving
      (ok, s2.modProc rp fun p => p.setMisc (clearBits p.pMiscFlags mfFpuInitialized))

/-! ## Priorities, deadlines and signals -/

/-- The queue `do_nice` computes from a priority between -20 and 20. -/
def niceQueue (pri : Int) : Int :=
  let newQ := ((pri + 20) * 16).tdiv 41
  if newQ < 0 then 0 else if 15 < newQ then 15 else newQ

/-- `do_nice(m_ptr)` -/
def doNice (s : State) (endpt pri : Int) : Int × State :=
  match s.isokendpt endpt with
  | none => (einval, s)
  | some rp =>
      if iskerneln (procNr rp) then (eperm, s)
      else if pri < -20 ∨ 20 < pri then (einval, s)
      else
        let s1 := (s.rtsSet rp rtsSysLock).modProc rp fun p =>
          { p with pMaxPriority := niceQueue pri, pPriority := niceQueue pri }
        (ok, s1.rtsUnset rp rtsSysLock)

/-- `do_chdeadline(m_ptr)` with a process number and a deadline in seconds from now;
zero seconds means none. -/
def doChdeadline (s : State) (n deadline : Int) : Int × State :=
  match procAddr n with
  | none => (ok, s.stop .wild)
  | some rp =>
      let s1 := s.rtsSet rp rtsSysLock
      let s2 :=
        if 0 < (s1.proc rp).pDeadline.tmrExpTime then
          (s1.resetTimer (.deadline rp)).modTimer (.deadline rp) fun t =>
            { t with tmrExpTime := 0 }
        else s1
      let s3 :=
        if deadline ≠ 0 then
          let expTime := wrap32 (deadline * 60 + s2.realtime)
          (s2.modTimer (.deadline rp) fun t =>
            { t with
              tmrExpTime := expTime
              tmrFunc := some .reachDeadline
              tmrArg := procNr rp }).setTimer (.deadline rp) expTime .reachDeadline
        else s2
      (ok, s3.rtsUnset rp rtsSysLock)

/-- `do_kill(m_ptr)`; `_NSIG` is 26. -/
def doKill (s : State) (endpt : Int) (sig : Nat) : Int × State :=
  match s.isokendpt endpt with
  | none => (einval, s)
  | some rp =>
      if 26 ≤ sig then (einval, s)
      else if iskerneln (procNr rp) then (eperm, s)
      else
        let s1 := s.causeSig rp sig
        (ok, if sig = sigkill then s1.clearEndpoint rp else s1)

/-- `do_getksig(m_ptr)`: hand the pending signals of one process to PM. -/
def doGetksig (s : State) : State :=
  match (List.finRange nrSlots).find? fun rp =>
      decide (4 ≤ rp.val) && s.rtsIsset rp rtsSignaled with
  | none => s
  | some rp => (s.modProc rp fun p => { p with pPending := 0 }).rtsUnset rp rtsSignaled

/-- `do_endksig(m_ptr)` -/
def doEndksig (s : State) (endpt : Int) : Int × State :=
  match s.isokendpt endpt with
  | none => (einval, s)
  | some rp =>
      if !s.rtsIsset rp rtsSigPending then (einval, s)
      else if !s.rtsIsset rp rtsSignaled then (ok, s.rtsUnset rp rtsSigPending)
      else (ok, s)

/-! ## Alarms and virtual timers -/

/-- `VT_VIRTUAL` and `VT_PROF` -/
def vtVirtual : Int := 1
def vtProf : Int := 2

/-- What `do_vtimer` does to the entry of the process: the timer goes off in `value` ticks,
or never if that is not positive. -/
def setVtimer (p : Proc) (which value : Int) : Proc :=
  let flag := if which = vtVirtual then mfVirtTimer else mfProfTimer
  let left := if 0 < value then value else 0
  let misc := clearBits p.pMiscFlags flag
  { p with
    pMiscFlags := if 0 < value then misc ||| flag else misc
    pVirtLeft := if which = vtVirtual then left else p.pVirtLeft
    pProfLeft := if which = vtVirtual then p.pProfLeft else left }

/-- The ticks that `do_vtimer` reports to be left. -/
def vtimerLeft (s : State) (rp : Slot) (which : Int) : Int :=
  if which = vtVirtual then
    if s.mfIsset rp mfVirtTimer then max (s.proc rp).pVirtLeft 0 else 0
  else if s.mfIsset rp mfProfTimer then max (s.proc rp).pProfLeft 0 else 0

/-- `do_vtimer(m_ptr)`: the result, the ticks that were left, and the state. -/
def doVtimer (s : State) (endpt which : Int) (set : Bool) (value : Int) : Int × Int × State :=
  if !isSet (s.privOf s.whoP).sFlags sysProc then (eperm, value, s)
  else if which ≠ vtVirtual ∧ which ≠ vtProf then (einval, value, s)
  else
    match s.isokendpt (if endpt = endptSelf then (s.proc s.whoP).pEndpoint else endpt) with
    | none => (einval, value, s)
    | some rp =>
        (ok, s.vtimerLeft rp which,
          if set then s.modProc rp fun p => setVtimer p which value else s)

/-- The ticks that `do_setalarm` reports to be left. -/
def alarmLeft (s : State) (tp : TimerId) : Int :=
  if (s.timer tp).tmrExpTime ≠ tmrNever ∧ s.realtime < (s.timer tp).tmrExpTime then
    (s.timer tp).tmrExpTime - s.realtime
  else 0

/-- `do_setalarm(m_ptr)`: the result, the ticks that were left, and the state. -/
def doSetalarm (s : State) (expTime : Int) (useAbsTime : Bool) : Int × Int × State :=
  if !isSet (s.privOf s.whoP).sFlags sysProc then (eperm, expTime, s)
  else
    let tp := TimerId.alarm (s.proc s.whoP).pPriv
    let s1 := s.modTimer tp fun t =>
      { t with tmrArg := (s.proc s.whoP).pEndpoint, tmrFunc := some .causeAlarm }
    if expTime = 0 then (ok, s.alarmLeft tp, s1.resetTimer tp)
    else
      let expires := if useAbsTime then expTime else wrap32 (expTime + s.realtime)
      (ok, s.alarmLeft tp, (s1.modTimer tp fun t => { t with tmrExpTime := expires }).setTimer tp
        expires .causeAlarm)

/-! ## Delivering messages -/

/-- `vm_suspend(caller, target, ..)`: the caller waits until VM has made its memory
accessible. -/
def vmSuspend (s : State) (caller target : Slot) (type : VmSuspendType) : State :=
  let s1 := s.rtsSet caller rtsVmrequest
  let head := s1.vmrequest
  let s2 := s1.modProc caller fun p =>
    { p with
      vmTarget := (s1.proc target).pEndpoint
      vmType := type
      vmNextrequestor := head }
  let s3 := if head = none then (s2.miniNotify systemSlot (procNr vmSlot)).2 else s2
  { s3 with vmrequest := some caller }

/-- `delivermsg(rp)`: copy the message in the delivery slot to the memory of the
process.  `mapped` says whether that memory can be written. -/
def delivermsg (s : State) (rp : Slot) (mapped : Bool) : Int × State :=
  if mapped then
    (ok, (s.modProc rp fun p => p.setMisc (clearBits p.pMiscFlags mfDelivermsg)).record
      (.copied rp (s.proc rp).pDelivermsg))
  else (vmsuspend, s.vmSuspend rp rp .delivermsg)

end State

end Minix.Kernel
