/-
  Kernel/Ipc.lean --- message passing: notifications, signals, the rendezvous calls
  `mini_send` and `mini_receive`, and the asynchronous calls of `proc.c`.

  Message passing is synchronous.  A sender whose destination does not wait for it
  blocks with `RTS_SENDING` and joins the destination's queue `p_caller_q`, linked
  through `p_q_link`.  A receiver that finds no message blocks with
  `RTS_RECEIVING` and the source it waits for in `p_getfrom_e`.  A message for a
  process is put into its delivery slot (`QueueMess`) and copied to its memory
  later, when the process is scheduled.

  What the code reads from user memory is a parameter: a `Buffer` says whether an
  address is mapped and what is there, and a `TableEnv` says which accesses to an
  asynchronous message table fail.
-/
import Minix.Kernel.Sched

set_option autoImplicit false

namespace Minix.Kernel

open Minix.Foundation

/-! ## The memory of processes -/

/-- A message buffer in the memory of a process: its virtual address, the linear
address `umap_local` finds for it (zero if there is none), and the message that a
copy from there reads (`none` if the copy faults). -/
structure Buffer where
  vir : Nat
  lin : Nat
  contents : Option Message
  deriving DecidableEq, Repr

/-- The accesses to an entry of an asynchronous message table. -/
inductive TableField where
  | getFlags
  | getDst
  | getMsg
  | putResult
  | putFlags
  deriving DecidableEq, Repr

/-- How an access to user memory ends. -/
inductive Access where
  | done
  | fault
  | unmapped
  deriving DecidableEq, Repr

/-- How `try_one` leaves an entry: the scan goes on, or it returns. -/
inductive Scan where
  /-- The entry is empty or done. -/
  | skip
  /-- The entry is for another destination. -/
  | other
  /-- The entry is withheld from the receiving part of a SENDREC. -/
  | postponed
  | finish (r : Int)
  deriving DecidableEq, Repr

/-- The trap numbers that `deadlock` is called with. -/
inductive BlockCall where
  | send
  | receive
  deriving DecidableEq, Repr

/-- `function << 2`: the flag that the call would set on the caller. -/
def BlockCall.flag : BlockCall → BitVec 16
  | .send => rtsSending
  | .receive => rtsReceiving

/-- The outcome of each table access during a call, by owner and entry address. -/
abbrev TableEnv := Slot → Nat → TableField → Access

namespace State

/-! ## The delivery slot -/

/-- `QueueMess(ep, msg_lin, dst)` -/
def queueMess (s : State) (ep : Int) (msg : Option Message) (dst : Slot) : Int × State :=
  match msg with
  | none => (efault, s)
  | some msg =>
      let m := { msg with mSource := ep }
      (ok, (s.modProc dst fun p =>
        { p with pDelivermsg := m, pMiscFlags := p.pMiscFlags ||| mfDelivermsg }).record
          (.queued dst m))

/-- `WILLRECEIVE(target, source_ep)` -/
def willReceive (s : State) (target : Slot) (sourceEp : Int) : Bool :=
  s.rtsIsset target rtsReceiving && !s.rtsIsset target rtsSending &&
    ((s.proc target).pGetfromE == endptAny || (s.proc target).pGetfromE == sourceEp)

/-! ## Notifications and signals -/

/-- `NOTIFY_FROM(p_nr)` -/
def notifyFrom (n : Int) : Int := 0x1000 + (n + 4)

/-- `BuildNotifyMessage(m_ptr, src, dst_ptr)`.  The argument of a notification from
any other source than HARDWARE and SYSTEM is whatever the stack held. -/
def buildNotifyMessage (s : State) (src : Slot) (dst : Slot) : Message × State :=
  let m : Message :=
    { mSource := 0, mType := notifyFrom (procNr src), m2l1 := 0, m2l2 := s.realtime, rest := 0 }
  if src = hardwareSlot then
    ({ m with m2l1 := (s.privOf dst).sIntPending.toInt },
      s.modPriv (s.proc dst).pPriv fun sp => { sp with sIntPending := 0 })
  else if src = systemSlot then
    ({ m with m2l1 := (s.privOf dst).sSigPending.toInt },
      s.modPriv (s.proc dst).pPriv fun sp => { sp with sSigPending := 0 })
  else (m, s)

/-- `set_sys_bit(priv(dst)->s_notify_pending, priv(src)->s_id)` -/
def setNotifyPending (s : State) (src dst : Slot) : State :=
  s.modPriv (s.proc dst).pPriv fun sp =>
    { sp with sNotifyPending := sp.sNotifyPending ||| 1#32 <<< (s.privOf src).sId.val }

/-- `mini_notify(caller_ptr, dst_e)` -/
def miniNotify (s : State) (caller : Slot) (dstE : Int) : Int × State :=
  match s.isokendpt dstE with
  | none => (edeadsrcdst, s)
  | some dst =>
      if s.willReceive dst (s.proc caller).pEndpoint && !s.mfIsset dst mfReplyPend then
        let built := s.buildNotifyMessage caller dst
        let s1 := (built.2.queueMess (s.proc caller).pEndpoint (some built.1) dst).2
        (ok, s1.rtsUnset dst rtsReceiving)
      else (ok, s.setNotifyPending caller dst)

/-- `send_sig(proc_nr, sig_nr)` -/
def sendSig (s : State) (rp : Slot) (sig : Nat) : State :=
  if s.isemptyp rp then s.stop .panic
  else
    let s1 := s.modPriv (s.proc rp).pPriv fun sp =>
      { sp with sSigPending := sp.sSigPending ||| sigbit sig }
    (s1.miniNotify systemSlot (s1.proc rp).pEndpoint).2

/-- `cause_sig(proc_nr, sig_nr)` -/
def causeSig (s : State) (rp : Slot) (sig : Nat) : State :=
  if rp = pmSlot then s.stop .panic
  else if isSet (s.proc rp).pPending (sigbit sig) then s
  else
    let s1 := s.modProc rp fun p => { p with pPending := p.pPending ||| sigbit sig }
    if s1.rtsIsset rp rtsSignaled then s1
    else (s1.rtsSet rp (rtsSignaled ||| rtsSigPending)).sendSig pmSlot sigksig

/-- `sig_delay_done(rp)` -/
def sigDelayDone (s : State) (rp : Slot) : State :=
  (s.modProc rp fun p => p.setMisc (clearBits p.pMiscFlags mfSigDelay)).causeSig rp signdelay

/-! ## Deadlock detection -/

/-- The process number `xp` waits for: `none` if it is not blocked.  An endpoint
that is not valid makes `okendpt` panic. -/
def dependency (s : State) (xp : Slot) : Except Halt (Option Int) :=
  if s.rtsIsset xp rtsReceiving then
    if (s.proc xp).pGetfromE = endptAny then .ok (some endptAny)
    else
      match s.isokendpt (s.proc xp).pGetfromE with
      | some y => .ok (some (procNr y))
      | none => .error .panic
  else if s.rtsIsset xp rtsSending then
    match s.isokendpt (s.proc xp).pSendtoE with
    | some y => .ok (some (procNr y))
    | none => .error .panic
  else .ok none

/-- The loop of `deadlock`, for at most `fuel` iterations.  Iteration `n` stores a
pointer in `processes[n]`, an array of `NR_PROCS + NR_TASKS` elements. -/
def deadlockLoop (s : State) (function : BlockCall) (cp : Slot) :
    Nat → Int → Nat → Except Halt Nat
  | 0, srcDst, _ => if srcDst = endptAny then .ok 0 else .error .hang
  | fuel + 1, srcDst, groupSize =>
      if srcDst = endptAny then .ok 0
      else
        match procAddr srcDst with
        | none => .error .wild
        | some xp =>
            let groupSize := groupSize + 1
            match s.dependency xp with
            | .error h => .error h
            | .ok none => .ok 0
            | .ok (some srcDst) =>
                if srcDst = procNr cp then
                  if groupSize = 2 ∧
                      ((s.proc xp).pRtsFlags ^^^ function.flag) &&& rtsSending ≠ 0#16 then .ok 0
                  else .ok groupSize
                else s.deadlockLoop function cp fuel srcDst groupSize

/-- `deadlock(function, cp, src_dst)`.  A walk that visits more processes than there
are does not end. -/
def deadlock (s : State) (function : BlockCall) (cp : Slot) (srcDst : Int) :
    Except Halt Nat :=
  s.deadlockLoop function cp nrSlots srcDst 1

/-! ## Rendezvous -/

/-- The queues of blocked senders: heads in the receivers, links through `p_q_link`. -/
def callerLinks (s : State) : Links Slot Slot where
  head rp := (s.proc rp).pCallerQ
  next rp := (s.proc rp).pQLink

/-- Write to a link of a queue of senders. -/
def setCallerLink (s : State) : Ref Slot Slot → Option Slot → State
  | .head rp, v => s.modProc rp fun p => { p with pCallerQ := v }
  | .next rp, v => s.modProc rp fun p => { p with pQLink := v }

/-- The caller of `mini_send` is marked as sending: its message is saved, the flag is
set and the destination noted. -/
def markSending (s : State) (caller : Slot) (dstE : Int) (msg : Message) : State :=
  let s1 := s.modProc caller fun p => { p with pSendmsg := msg }
  (s1.rtsSet caller rtsSending).modProc caller fun p => { p with pSendtoE := dstE }

/-- The last part of `mini_send`: the caller blocks and joins the queue of `dst`. -/
def blockSender (s : State) (caller dst : Slot) (dstE : Int) (msg : Message) : State :=
  let s2 := s.markSending caller dstE msg
  match s2.callerLinks.seek (fun _ => false) (nrSlots + 1) (.head dst) with
  | none => s2.stop .hang
  | some xpp =>
      ((s2.setCallerLink xpp (some caller)).setCallerLink (.next caller) none).record
        (.blocked caller dst)

/-- `mini_send(caller_ptr, dst_e, m_ptr, flags)` -/
def miniSend (s : State) (caller : Slot) (dstE : Int) (m : Buffer) (nonBlocking : Bool) :
    Int × State :=
  if m.lin = 0 then (efault, s)
  else
    match procAddr (endpointP dstE) with
    | none => (efault, s.stop .wild)
    | some dst =>
        if s.rtsIsset dst rtsNoEndpoint then (edstdied, s)
        else if s.willReceive dst (s.proc caller).pEndpoint then
          let queued := s.queueMess (s.proc caller).pEndpoint m.contents dst
          if queued.1 ≠ ok then queued else (ok, queued.2.rtsUnset dst rtsReceiving)
        else if nonBlocking then (enotready, s)
        else
          match s.deadlock .send caller (procNr dst) with
          | .error h => (elocked, s.stop h)
          | .ok groupSize =>
              if groupSize ≠ 0 then (elocked, s)
              else
                match m.contents with
                | none => (efault, s)
                | some msg => (ok, s.blockSender caller dst dstE msg)

/-- The lowest bit that is set in chunk `c` of a notification map, as a privilege id. -/
def lowestPending (map : BitVec 32) (c : Nat) : Option (Fin nrSysProcs) :=
  (List.finRange nrSysProcs).find? fun i =>
    decide (i.val / 16 = c) && map.getLsbD i.val

/-- The notification that `mini_receive` takes: only the first bit of each chunk is
tried.  `srcP` is the source that is wanted, `none` for `ANY`. -/
def pendingNotify (s : State) (caller : Slot) (srcP : Option Slot) : Option (Fin nrSysProcs) :=
  [0, 1].findSome? fun c =>
    match lowestPending (s.privOf caller).sNotifyPending c with
    | none => none
    | some id =>
        match srcP with
        | none => some id
        | some src => if procNr src = (s.priv (some id)).sProcNr then some id else none

/-- Deliver the pending notification with privilege id `id`. -/
def takeNotify (s : State) (caller : Slot) (id : Fin nrSysProcs) : State :=
  let s1 := s.modPriv (s.proc caller).pPriv fun sp =>
    { sp with sNotifyPending := sp.sNotifyPending &&& ~~~(1#32 <<< id.val) }
  match procAddr (s.priv (some id)).sProcNr with
  | none => s1.stop .wild
  | some src =>
      let built := s1.buildNotifyMessage src caller
      (built.2.queueMess (built.2.proc src).pEndpoint (some built.1) caller).2

/-- Take the message of the blocked sender `src`, whose link is the cell `xpp`. -/
def takeSender (s : State) (caller : Slot) (wanted : Option Slot) (src : Slot)
    (xpp : Ref Slot Slot) : State :=
  let s1 := (s.queueMess (s.proc src).pEndpoint (some (s.proc src).pSendmsg) caller).2
  let s2 := if s1.mfIsset src mfSigDelay then s1.sigDelayDone src else s1
  let s3 := s2.rtsUnset src rtsSending
  (s3.setCallerLink xpp (s3.proc src).pQLink).record (.taken src caller wanted)

/-! ## Asynchronous messages -/

/-- `data_copy` between the kernel and the table of `owner`, as far as the kernel
state goes: whether the copy succeeds.  Once paging runs, `virtual_copy` first ends
a pending memory request of the last kernel caller and fails with its result. -/
def dataCopy (s : State) (env : TableEnv) (owner : Slot) (addr : Nat) (field : TableField) :
    Bool × State :=
  match s.isokendpt (s.proc owner).pEndpoint with
  | none => (false, s)
  | some _ =>
      if env owner addr field = .unmapped then (false, s)
      else if !s.vmRunning then (true, s)
      else if s.rtsIsset s.whoP rtsVmrequest then
        let s1 := s.rtsUnset s.whoP rtsVmrequest
        (decide ((s.proc s.whoP).vmResult = ok) && decide (env owner addr field = .done), s1)
      else (decide (env owner addr field = .done), s)

/-- Write to an entry of the table of `owner`. -/
def modEntry (s : State) (owner : Slot) (addr : Nat) (f : AsynMsg → AsynMsg) : State :=
  { s with
    amem := Function.update s.amem owner
      (Function.update (s.amem owner) addr (f (s.amem owner addr))) }

/-- `A_INSERT(i, result); tabent.flags = flags | AMF_DONE; A_INSERT(i, flags)` -/
def finishEntry (s : State) (env : TableEnv) (owner : Slot) (addr : Nat) (flags : BitVec 32)
    (result : Int) : Bool × State :=
  let copied := s.dataCopy env owner addr .putResult
  if !copied.1 then copied
  else
    let s1 := copied.2.modEntry owner addr fun e => { e with result := result }
    let copied := s1.dataCopy env owner addr .putFlags
    if !copied.1 then copied
    else (true, copied.2.modEntry owner addr fun e => { e with flags := flags ||| amfDone })

/-- The test for reserved bits in the flags of an entry. -/
def badAmfFlags (flags : BitVec 32) : Bool :=
  clearBits flags (amfValid ||| amfDone ||| amfNotify ||| amfNoreply) != 0#32 ||
    !isSet flags amfValid

/-- The last part of an iteration of `try_one`: the entry is for `dst`. -/
def tryDeliver (s : State) (env : TableEnv) (src dst : Slot) (addr : Nat) (flags : BitVec 32) :
    Scan × State :=
  let copied := s.dataCopy env src addr .getMsg
  if !copied.1 then (.finish efault, copied.2)
  else
    let msg := (copied.2.amem src addr).msg
    let queued := copied.2.queueMess (copied.2.proc src).pEndpoint (some msg) dst
    let finished := queued.2.finishEntry env src addr flags queued.1
    if !finished.1 then (.finish efault, finished.2) else (.finish ok, finished.2)

/-- One iteration of the scan in `try_one(src_ptr, dst_ptr, ..)`. -/
def tryEntry (s : State) (env : TableEnv) (src dst : Slot) (addr : Nat) : Scan × State :=
  let copied := s.dataCopy env src addr .getFlags
  if !copied.1 then (.finish efault, copied.2)
  else
    let s1 := copied.2
    let flags := (s1.amem src addr).flags
    if flags = 0#32 then (.skip, s1)
    else if badAmfFlags flags then
      (.finish einval, s1.modPriv (s1.proc src).pPriv fun sp => { sp with sAsynsize := 0 })
    else if isSet flags amfDone then (.skip, s1)
    else
      let copied := s1.dataCopy env src addr .getDst
      if !copied.1 then (.finish efault, copied.2)
      else
        let s2 := copied.2
        if (s2.amem src addr).dst ≠ (s2.proc dst).pEndpoint then (.other, s2)
        else if isSet flags amfNoreply && s2.mfIsset dst mfReplyPend then (.postponed, s2)
        else s2.tryDeliver env src dst addr flags

/-- The scan of `try_one` over the entries from `addr` on.  Returns the result,
whether all entries were empty or done, and whether one was postponed. -/
def tryTable (s : State) (env : TableEnv) (src dst : Slot) :
    Nat → Nat → Bool → Bool → (Option Int × Bool × Bool) × State
  | 0, _, done, postponed => ((none, done, postponed), s)
  | size + 1, addr, done, postponed =>
      match s.tryEntry env src dst addr with
      | (.skip, s) => s.tryTable env src dst size (addr + asynmsgSize) done postponed
      | (.other, s) => s.tryTable env src dst size (addr + asynmsgSize) false postponed
      | (.postponed, s) => s.tryTable env src dst size (addr + asynmsgSize) false true
      | (.finish r, s) => ((some r, done, postponed), s)

/-- `try_one(src_ptr, dst_ptr, &postponed)`: the result and whether a message was
postponed. -/
def tryOne (s : State) (env : TableEnv) (src dst : Slot) : (Int × Bool) × State :=
  let privp := s.privOf src
  if privp.sId = userPrivId then ((eagain, false), s)
  else if privp.sAsynsize = 0 then ((eagain, false), s)
  else if !s.maySendTo src dst then ((eagain, false), s)
  else
    match s.tryTable env src dst privp.sAsynsize privp.sAsyntab true false with
    | ((some r, _, postponed), s1) => ((r, postponed), s1)
    | ((none, true, postponed), s1) =>
        ((eagain, postponed),
          s1.modPriv (s1.proc src).pPriv fun sp => { sp with sAsynsize := 0 })
    | ((none, false, postponed), s1) => ((eagain, postponed), s1)

/-- The loop of `try_async` over the privilege structures. -/
def tryAll (s : State) (env : TableEnv) (caller : Slot) :
    List (Fin nrSysProcs) → Bool → (Int × Bool) × State
  | [], postponed => ((esrch, postponed), s)
  | id :: ids, postponed =>
      if (s.priv (some id)).sProcNr = endptNone then s.tryAll env caller ids postponed
      else
        match procAddr (s.priv (some id)).sProcNr with
        | none => ((esrch, true), s.stop .wild)
        | some src =>
            let tried := s.tryOne env src caller
            if tried.1.1 = ok then ((ok, true), tried.2)
            else tried.2.tryAll env caller ids (postponed || tried.1.2)

/-- `try_async(caller_ptr)` -/
def tryAsync (s : State) (env : TableEnv) (caller : Slot) : Int × State :=
  let tried := s.tryAll env caller (List.finRange nrSysProcs) false
  if tried.1.1 = ok then (ok, tried.2)
  else if tried.1.2 then (esrch, tried.2)
  else
    (esrch, tried.2.modProc caller fun p => p.setMisc (clearBits p.pMiscFlags mfAsynmsg))

/-! ## Receiving -/

/-- The last part of `mini_receive`: the caller blocks unless that is a deadlock. -/
def blockReceiver (s : State) (caller : Slot) (srcE srcP : Int) : Int × State :=
  match s.deadlock .receive caller srcP with
  | .error h => (elocked, s.stop h)
  | .ok groupSize =>
      if groupSize ≠ 0 then (elocked, s)
      else
        (ok, (s.modProc caller fun p => { p with pGetfromE := srcE }).rtsSet caller rtsReceiving)

/-- The search of `mini_receive` for a message that is already there: a pending
notification, a blocked sender, or an asynchronous message.  `src` is the source
that is wanted, `none` for `ANY`. -/
def receiveNow (s : State) (env : TableEnv) (caller : Slot) (src : Option Slot) :
    Bool × State :=
  match if s.mfIsset caller mfReplyPend then none else s.pendingNotify caller src with
  | some id => (true, s.takeNotify caller id)
  | none =>
      match s.callerLinks.seek (fun xp => src.all (· == xp)) (nrSlots + 1) (.head caller) with
      | none => (true, s.stop .hang)
      | some xpp =>
          match s.callerLinks.get xpp with
          | some sender => (true, s.takeSender caller src sender xpp)
          | none =>
              if s.mfIsset caller mfAsynmsg then
                match src with
                | some src =>
                    let tried := s.tryOne env src caller
                    (decide (tried.1.1 = ok), tried.2)
                | none =>
                    let tried := s.tryAsync env caller
                    (decide (tried.1 = ok), tried.2)
              else (false, s)

/-- `mini_receive(caller_ptr, src_e, m_ptr, 0)` -/
def miniReceive (s : State) (env : TableEnv) (caller : Slot) (srcE : Int) (m : Buffer) :
    Int × State :=
  if m.lin = 0 then (efault, s)
  else
    let s1 := s.modProc caller fun p =>
      { p with pDelivermsgLin := m.lin, pDelivermsgVir := m.vir }
    let src := if srcE = endptAny then none else s1.isokendpt srcE
    if srcE ≠ endptAny ∧ src = none then (efault, s1.stop .panic)
    else if src.any (fun src => s1.rtsIsset src rtsNoEndpoint) then (esrcdied, s1)
    else
      let srcP := (src.map procNr).getD endptAny
      if s1.rtsIsset caller rtsSending then s1.blockReceiver caller srcE srcP
      else
        let found := s1.receiveNow env caller src
        if found.1 then (ok, found.2) else found.2.blockReceiver caller srcE srcP

/-! ## Sending asynchronously -/

/-- The destination of an entry of `mini_senda`, or the error that the entry gets. -/
def sendaTarget (s : State) (caller : Slot) (dstE : Int) : Except Int Slot :=
  match s.isokendpt dstE with
  | none => .error edeadsrcdst
  | some dst =>
      if iskerneln (procNr dst) then .error ecalldenied
      else if !s.maySendTo caller dst then .error ecalldenied
      else if s.rtsIsset dst rtsNoEndpoint then .error edstdied
      else .ok dst

/-- Deliver an entry of `mini_senda` to a process that waits for it. -/
def sendaDeliver (s : State) (env : TableEnv) (caller dst : Slot) (addr : Nat) : Int × State :=
  let msg := if env caller addr .getMsg = .done then some (s.amem caller addr).msg else none
  let queued := s.queueMess (s.proc caller).pEndpoint msg dst
  (queued.1, if queued.1 = ok then queued.2.rtsUnset dst rtsReceiving else queued.2)

/-- Write the result of an entry of `mini_senda` back and go on with the scan. -/
def sendaFinish (s : State) (env : TableEnv) (caller : Slot) (addr : Nat) (flags : BitVec 32)
    (result : Int) : Option Int × Bool × State :=
  let finished := s.finishEntry env caller addr flags result
  (if finished.1 then none else some efault, false, finished.2)

/-- One iteration of the scan of `mini_senda`: `none` if the scan goes on, with the
entry still to be delivered if the flag is set. -/
def sendaEntry (s : State) (env : TableEnv) (caller : Slot) (addr : Nat) :
    Option Int × Bool × State :=
  let copied := s.dataCopy env caller addr .getFlags
  if !copied.1 then (some efault, false, copied.2)
  else
    let s1 := copied.2
    let flags := (s1.amem caller addr).flags
    if flags = 0#32 then (none, false, s1)
    else if badAmfFlags flags then (some einval, false, s1)
    else if isSet flags amfDone then (none, false, s1)
    else
      let copied := s1.dataCopy env caller addr .getDst
      if !copied.1 then (some efault, false, copied.2)
      else
        let s2 := copied.2
        match s2.sendaTarget caller (s2.amem caller addr).dst with
        | .error r => s2.sendaFinish env caller addr flags r
        | .ok dst =>
            if s2.willReceive dst (s2.proc caller).pEndpoint &&
                (!isSet flags amfNoreply || !s2.mfIsset dst mfReplyPend) then
              let delivered := s2.sendaDeliver env caller dst addr
              delivered.2.sendaFinish env caller addr flags delivered.1
            else
              (none, true, s2.modProc dst fun p => p.setMisc (p.pMiscFlags ||| mfAsynmsg))

/-- The scan of `mini_senda`: the result if it returns early, and whether an entry is
still to be delivered. -/
def sendaTable (s : State) (env : TableEnv) (caller : Slot) :
    Nat → Nat → Bool → Option Int × Bool × State
  | 0, _, pending => (none, pending, s)
  | size + 1, addr, pending =>
      let entry := s.sendaEntry env caller addr
      match entry.1 with
      | some r => (some r, pending, entry.2.2)
      | none =>
          entry.2.2.sendaTable env caller size (addr + asynmsgSize) (pending || entry.2.1)

/-- `16 * (NR_TASKS + NR_PROCS)`, the limit on the size of a table. -/
def maxAsynsize : Nat := 16 * nrSlots

/-- `mini_senda(caller_ptr, table, size)` -/
def miniSenda (s : State) (env : TableEnv) (caller : Slot) (table : Buffer) (size : Nat) :
    Int × State :=
  if !isSet (s.privOf caller).sFlags sysProc then (eperm, s)
  else
    let s1 := s.modPriv (s.proc caller).pPriv fun sp =>
      { sp with sAsyntab := 0xffffffff, sAsynsize := 0 }
    if size = 0 then (ok, s1)
    else if table.lin = 0 then (efault, s1)
    else if maxAsynsize < size then (edom, s1)
    else
      let scan := s1.sendaTable env caller size table.vir false
      match scan.1 with
      | some r => (r, scan.2.2)
      | none =>
          if scan.2.1 then
            (ok, scan.2.2.modPriv (s.proc caller).pPriv fun sp =>
              { sp with sAsyntab := table.vir, sAsynsize := size })
          else (ok, scan.2.2)

/-! ## The system call -/

end State

/-- System call numbers. -/
def callSend : Int := 1
def callReceive : Int := 2
def callSendrec : Int := 3
def callNotify : Int := 4
def callSendnb : Int := 5
def callSenda : Int := 16

/-- The arguments of a system call.  For SENDA, `mPtr` is the table and `srcDstE`
its size. -/
structure Trap where
  callNr : Int
  srcDstE : Int
  mPtr : Buffer
  env : TableEnv

namespace State

/-- `priv(rp)->s_trap_mask & (1 << call_nr)`, for `0 <= call_nr < 32`.  The mask is a
`short`, so its sign bit stands for every higher call number. -/
def trapAllowed (s : State) (rp : Slot) (callNr : Int) : Bool :=
  (s.privOf rp).sTrapMask.getLsbD (min callNr.toNat 15)

/-- The checks of `sys_call` on the caller, the call and the endpoint it names: an
error code, or zero. -/
def sysCallCheck (s : State) (caller : Slot) (t : Trap) : Int :=
  let trap : Int :=
    if t.callNr < 0 ∨ 32 ≤ t.callNr then etrapdenied
    else if !s.trapAllowed caller t.callNr then etrapdenied
    else ok
  if t.callNr = callSenda then
    if trap ≠ ok then trap
    else if t.srcDstE < 0 ∨ (maxAsynsize : Int) < t.srcDstE then edom
    else ok
  else if t.srcDstE = endptAny then
    if t.callNr ≠ callReceive then einval else trap
  else
    match s.isokendpt t.srcDstE with
    | none => edeadsrcdst
    | some srcDst =>
        if t.callNr ≠ callReceive ∧ !s.maySendTo caller srcDst then ecalldenied
        else if trap ≠ ok then trap
        else if t.callNr ≠ callSendrec ∧ t.callNr ≠ callReceive ∧ iskerneln (procNr srcDst) then
          etrapdenied
        else ok

/-- The switch of `sys_call`. -/
def sysCallSwitch (s : State) (caller : Slot) (t : Trap) : Int × State :=
  if t.callNr = callSendrec then
    let s1 := s.modProc caller fun p => p.setMisc (p.pMiscFlags ||| mfReplyPend)
    let sent := s1.miniSend caller t.srcDstE t.mPtr false
    if sent.1 ≠ ok then sent else sent.2.miniReceive t.env caller t.srcDstE t.mPtr
  else if t.callNr = callSend then s.miniSend caller t.srcDstE t.mPtr false
  else if t.callNr = callReceive then
    let s1 := s.modProc caller fun p => p.setMisc (clearBits p.pMiscFlags mfReplyPend)
    s1.miniReceive t.env caller t.srcDstE t.mPtr
  else if t.callNr = callNotify then s.miniNotify caller t.srcDstE
  else if t.callNr = callSendnb then s.miniSend caller t.srcDstE t.mPtr true
  else if t.callNr = callSenda then s.miniSenda t.env caller t.mPtr t.srcDstE.toNat
  else (ebadcall, s)

/-- `sys_call(call_nr, src_dst_e, m_ptr, bit_map)`; the caller is `proc_ptr`. -/
def sysCall (s : State) (t : Trap) : Int × State :=
  let caller := s.procPtr
  if s.mfIsset caller mfScTrace && !s.mfIsset caller mfScDefer then
    -- the tracer is told before the call is made
    let s1 := s.modProc caller fun p =>
      p.setMisc (clearBits p.pMiscFlags mfScTrace ||| mfScDefer)
    ((s.proc caller).pRetreg, s1.causeSig caller sigtrap)
  else
    let s1 :=
      if s.mfIsset caller mfScTrace || s.mfIsset caller mfScDefer then
        s.modProc caller fun p => p.setMisc (clearBits p.pMiscFlags mfScDefer ||| mfScActive)
      else s
    let r := s1.sysCallCheck caller t
    if r ≠ ok then (r, s1) else s1.sysCallSwitch caller t

/-- A trap from the current process: the system call and its result register. -/
def trap (s : State) (t : Trap) : State :=
  let called := s.sysCall t
  called.2.modProc s.procPtr fun p => { p with pRetreg := called.1 }

/-- `lock_send(dst_e, m_ptr)`: a send of the current task without the checks of
`sys_call`. -/
def lockSend (s : State) (dstE : Int) (m : Buffer) : Int × State :=
  s.miniSend s.procPtr dstE m false

end State

end Minix.Kernel
