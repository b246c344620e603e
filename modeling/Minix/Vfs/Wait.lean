/-
  Vfs/Wait.lean --- suspended processes: `suspend`, `release`, `revive` and `unpause` of
  `pipe.c`, the table of `select.c`, and `lock_revive`.

  The answers of drivers are arguments; what is copied to and from the processes that select is
  left out.
-/
import Minix.Vfs.State

set_option autoImplicit false

namespace Minix.Vfs

/-- `INIT_PROC_NR` -/
def initProcNr : Nat := 10

/-- The call that moves data this way. -/
def Rw.call : Rw → CallNr
  | .reading => .read
  | .writing => .write

/-- The operation that goes with a call, for select. -/
def CallNr.selOps : CallNr → SelOps
  | .read => ⟨true, false, false⟩
  | .write => ⟨false, true, false⟩
  | _ => .empty

/-- The descriptors below `nfds`. -/
def SelectEntry.fds (e : SelectEntry) : List Fd := (List.finRange openMax).filter fun fd => fd.val < e.nfds

namespace State

/-! ## Vnodes -/

/-- The requests of `put_vnode` to the pipe file system: its inode goes. -/
def putPfs (s : State) (x : Vnode) : State :=
  match x.fs, x.mapped with
  | .pfs, _ => s.setPfs x.inode none
  | .other _, some i => if i = x.inode then s else s.setPfs i none
  | .other _, none => s

/-- `put_vnode(vp)`: the last reference gives the inodes back. -/
def putVnode (s : State) (v : VnodeNr) : State :=
  let x := s.vnode v
  if 1 < x.refCount then s.setVnode v { x with refCount := x.refCount - 1 }
  else (s.putPfs x).setVnode v { x with refCount := 0, pipe := false, sdev := none, mapped := none }

/-- A filp becomes free, with its reference to the vnode. -/
def dropFilp (s : State) (n : FilpNr) (v : VnodeNr) : State := ((s.setCount n 0).putVnode v).setFile n none

/-! ## Suspension -/

/-- `suspend(why)` for a process. -/
def suspend (s : State) (p : ProcNr) (why : BlockedOn) (saved : SavedCall) : State :=
  let s1 := if why = .popen then { s with suspCount := s.suspCount + 1 } else s
  s1.setProc p { s1.proc p with blockedOn := why, saved := saved, suspReopen := false }

/-- `wait_for(who)` -/
def waitFor (s : State) (p : ProcNr) (who : Endpoint) (saved : SavedCall) : State :=
  let s1 := s.suspend p .other saved
  s1.setProc p { s1.proc p with task := who }

/-- `pipe_suspend(rw_flag, fd_nr, buf, size)` -/
def pipeSuspend (s : State) (p : ProcNr) (rw : Rw) (fd : Int) (buf size : Int) : State :=
  let s1 := { s with suspCount := s.suspCount + 1 }
  s1.setProc p { s1.proc p with blockedOn := .pipe, saved := ⟨fd, rw.call, buf, size⟩ }

/-- The descriptor of an open that has failed in the driver is given back. -/
def dropOpen (s : State) (p : ProcNr) : State :=
  match fdOf (s.proc p).saved.fd with
  | none => s
  | some fd =>
      match (s.proc p).fds fd with
      | none => s
      | some n =>
          let s1 := s.setFd p fd none false
          if (s.filp n).count ≠ 1 then s1.panic .filpCount
          else
            match (s.filp n).vnode with
            | none => s1.setCount n 0
            | some v => s1.dropFilp n v

/-- A process is marked REVIVING. -/
def mark (s : State) (p : ProcNr) : State :=
  { s.setProc p { s.proc p with revived := true } with reviving := s.reviving + 1 }

/-- A process is not REVIVING any more. -/
def unmark (s : State) (p : ProcNr) : State :=
  { s.setProc p { s.proc p with revived := false } with reviving := s.reviving - 1 }

/-- A process is not suspended any more. -/
def goOn (s : State) (p : ProcNr) : State := s.setProc p { s.proc p with blockedOn := .none }

/-- The input or output of a process is done, and its grant is revoked. -/
def endIo (s : State) (p : ProcNr) (returned : Int) : State :=
  s.setProc p { s.proc p with saved := { (s.proc p).saved with nbytes := returned }, grant := none }

/-- `revive(proc_nr_e, returned)` -/
def revive (s : State) (e : Endpoint) (returned : Int) : State :=
  match s.isokendpt e with
  | none => s
  | some p =>
      if (s.proc p).revived then s
      else
        match (s.proc p).blockedOn with
        | .none => s
        | .pipe | .lock => s.mark p
        | .dopen =>
            if returned < 0 then ((s.goOn p).dropOpen p).reply e returned
            else (s.goOn p).reply e (s.proc p).saved.fd
        | .popen => (s.goOn p).reply e (s.proc p).saved.fd
        | .select => (s.goOn p).reply e returned
        | .other => ((s.endIo p returned).goOn p).reply e returned

/-! ## The table of select -/

/-- `select_reevaluate(fp)`; the slots that are looked at are the free ones. -/
def selectReevaluate (s : State) (n : FilpNr) : State :=
  let remain := (List.finRange maxSelects).foldl
    (fun ops i =>
      if (s.sel i).requestor.isSome then ops
      else (s.sel i).fds.foldl (fun ops fd => if (s.sel i).filps fd = some n then ops.union ((s.sel i).want fd) else ops) ops)
    SelOps.empty
  s.setFilp n { s.filp n with selectOps := remain }

/-- What `select_cancel_all` does for one descriptor. -/
def cancelFd (i : SelNr) (s : State) (fd : Fd) : State :=
  match (s.sel i).filps fd with
  | none => s
  | some n =>
      if (s.filp n).selectors < 1 then s
      else
        let s1 := s.setFilp n { s.filp n with selectors := (s.filp n).selectors - 1 }
        (s1.setSel i { s1.sel i with filps := Function.update (s1.sel i).filps fd none }).selectReevaluate n

/-- `select_cancel_all(e)` -/
def selectCancelAll (s : State) (i : SelNr) : State :=
  let s1 := (s.sel i).fds.foldl (cancelFd i) s
  s1.setSel i { s1.sel i with timer := false }

/-- `select_wakeup(e, r)`, after which the slot is free. -/
def selectWakeup (s : State) (i : SelNr) (r : Int) : State :=
  let s1 := s.revive (s.sel i).endpt r
  s1.setSel i { s1.sel i with requestor := none }

/-- `select_return(se, r)` -/
def selectReturn (s : State) (i : SelNr) (r : Int) : State :=
  let s1 := s.selectCancelAll i
  s1.selectWakeup i (if r ≠ 0 then r else (s1.sel i).nready)

end State

/-- `ops2tab(ops, fd, e)` -/
def SelectEntry.ops2tab (e : SelectEntry) (ops : SelOps) (fd : Fd) : SelectEntry :=
  let fresh := (ops.inter (e.want fd)).diff (e.ready fd)
  { e with ready := Function.update e.ready fd ((e.ready fd).union fresh), nready := e.nready + fresh.count }

namespace State

/-- The descriptors of a slot that wait for the operations on the filp. -/
def callbackFds (s : State) (n : FilpNr) (ops : SelOps) (i : SelNr) : List Fd :=
  (s.sel i).fds.filter fun fd =>
    decide ((s.sel i).filps fd = some n) && decide (((s.sel i).want fd).inter ops ≠ SelOps.empty)

/-- What `select_callback` does for one slot. -/
def callbackSlot (n : FilpNr) (ops : SelOps) (s : State) (i : SelNr) : State :=
  if (s.sel i).requestor.isNone then s
  else if s.callbackFds n ops i = [] then s
  else (s.setSel i ((s.callbackFds n ops i).foldl (fun e fd => e.ops2tab ops fd) (s.sel i))).selectReturn i 0

/-- `select_callback(fp, ops)` -/
def selectCallback (s : State) (n : FilpNr) (ops : SelOps) : State :=
  (List.finRange maxSelects).foldl (callbackSlot n ops) s

/-- `select_forget(proc_e)` -/
def selectForget (s : State) (e : Endpoint) : State :=
  match (List.finRange maxSelects).find? fun i => (s.sel i).requestor.isSome && decide ((s.sel i).endpt = e) with
  | none => s
  | some i =>
      let s1 := s.selectCancelAll i
      s1.setSel i { s1.sel i with requestor := none }

/-- `select_timeout_check` for a slot. -/
def selectTimeoutCheck (s : State) (i : SelNr) : State :=
  if (s.sel i).requestor.isNone || !(s.sel i).timer then s
  else (s.setSel i { s.sel i with timer := false }).selectReturn i 0

/-- The device of a filp. -/
def sdev (s : State) (n : FilpNr) : Option (Major × Nat) := (s.filp n).vnode.bind fun v => (s.vnode v).sdev

/-- What `select_unsuspend_by_endpt` does for one descriptor of a slot. -/
def unsuspendFd (e : Endpoint) (i : SelNr) (s : State) (fd : Fd) : State :=
  match ((s.sel i).filps fd).bind s.sdev with
  | none => s
  | some (major, _) => if s.dmap major = some e then s.selectReturn i eagain else s

/-- `select_unsuspend_by_endpt(proc_e)` -/
def selectUnsuspendByEndpt (s : State) (e : Endpoint) : State :=
  (List.finRange maxSelects).foldl
    (fun s i => if (s.sel i).requestor.isNone then s else (s.sel i).fds.foldl (unsuspendFd e i) s) s

/-- `select_major_match(match_major, file)` -/
def selectMajorMatch (s : State) (major : Major) (n : FilpNr) : Bool :=
  match (s.filp n).vnode with
  | none => false
  | some v => decide ((s.vnode v).type = .charSpecial) && decide ((s.vnode v).sdev.map Prod.fst = some major)

/-- The majors of `fdtypes` that have no function to match. -/
def selectMajors : List Nat := [4, 7, 15]

/-- Whether the filp is for this device. -/
def isDevice (s : State) (major : Major) (minor : Nat) (n : FilpNr) : Bool :=
  s.selectMajorMatch major n && decide ((s.sdev n).map Prod.snd = some minor)

/-- What `select_notified` does for one descriptor of a slot. -/
def notifiedFd (major : Major) (minor : Nat) (selected : SelOps) (i : SelNr) (s : State) (fd : Fd) : State :=
  match (s.sel i).filps fd with
  | none => s
  | some n =>
      let ops := selected.inter ((s.sel i).want fd)
      if s.isDevice major minor n && decide (ops ≠ .empty) then s.selectCallback n ops else s

/-- `select_notified(major, minor, selected_ops)` -/
def selectNotified (s : State) (major : Major) (minor : Nat) (selected : SelOps) : State :=
  if major.val ∉ selectMajors then s
  else
    (List.finRange maxSelects).foldl
      (fun s i =>
        if (s.sel i).requestor.isNone then s else (s.sel i).fds.foldl (notifiedFd major minor selected i) s) s

/-- `restart_proc(slot)` -/
def restartProc (s : State) (i : SelNr) : State :=
  let e := s.sel i
  let waits (fd : Fd) : Bool :=
    decide (e.deferredFd ≤ fd.val) && (e.filps fd).any fun n => (s.filp n).selUpdate || (s.filp n).selBusy
  match if e.deferred then (List.finRange openMax).find? waits else none with
  | some fd => s.setSel i { e with deferredFd := fd.val }
  | none =>
      let s1 := s.setSel i { e with deferred := false }
      if 0 < e.nready ∨ !e.block then s1.selectWakeup i e.nready else s1

/-- What `filp_status` does for one descriptor of a slot; a status of `none` is an error. -/
def statusFd (n : FilpNr) (status : Option SelOps) (i : SelNr) (s : State) (fd : Fd) : State :=
  if (s.sel i).filps fd ≠ some n then s
  else
    match status with
    | none => s.restartProc i
    | some ops => (s.setSel i ((s.sel i).ops2tab ops fd)).restartProc i

/-- `filp_status(fp, status)` -/
def filpStatus (s : State) (n : FilpNr) (status : Option SelOps) : State :=
  (List.finRange maxSelects).foldl
    (fun s i =>
      if (s.sel i).requestor.isNone then s else (List.finRange openMax).foldl (statusFd n status i) s) s

/-- The device of a message from a driver: its first major, with the minor. -/
def driverMajor (s : State) (source : Endpoint) : Option Major :=
  (List.finRange nrDevices).find? fun d => decide (s.dmap d = some source)

/-- What `select_reply2` does for one descriptor of a slot. -/
def reply2Fd (major : Major) (minor : Nat) (status : Option SelOps) (i : SelNr) (s : State) (fd : Fd) : State :=
  match (s.sel i).filps fd, status with
  | some n, some ops =>
      if s.isDevice major minor n then
        let s1 :=
          if (s.filp n).selUpdate then s
          else s.setFilp n { s.filp n with selectOps := (s.filp n).selectOps.diff ops }
        s1.setSel i ((s1.sel i).ops2tab ops fd)
      else s
  | _, _ => s

/-- What `select_reply2` does for one slot. -/
def reply2Slot (major : Major) (minor : Nat) (status : Option SelOps) (s : State) (i : SelNr) : State :=
  if (s.sel i).requestor.isNone then s
  else
    let s1 := (List.finRange openMax).foldl (reply2Fd major minor status i) s
    if 0 < (s1.sel i).nready then s1.restartProc i else s1

/-- `select_reply2()` -/
def selectReply2 (s : State) (source : Endpoint) (minor : Nat) (status : Option SelOps) : State :=
  match s.driverMajor source with
  | none => s
  | some major => (List.finRange maxSelects).foldl (reply2Slot major minor status) s

/-! ## Release -/

/-- The processes that select on a filp of the pipe. -/
def releaseFilp (v : VnodeNr) (call : CallNr) (s : State) (n : FilpNr) : State :=
  if (s.filp n).count < 1 ∨ (s.filp n).pipeSelectOps.inter call.selOps = .empty ∨ (s.filp n).vnode ≠ some v then s
  else
    let s1 := s.selectCallback n call.selOps
    s1.setFilp n { s1.filp n with pipeSelectOps := (s1.filp n).pipeSelectOps.diff call.selOps }

/-- The processes that select on the pipe. -/
def releaseSelect (s : State) (v : VnodeNr) (call : CallNr) : State :=
  (List.finRange nrFilps).foldl (releaseFilp v call) s

/-- The vnode of the call that a process is suspended in. -/
def savedVnode (s : State) (p : ProcNr) : Option VnodeNr :=
  ((fdOf (s.proc p).saved.fd).bind (s.proc p).fds).bind fun n => (s.filp n).vnode

/-- Whether `release` takes the process.  The descriptor of a process that waits for a driver
may have been taken away; that the source follows the pointer all the same is left out. -/
def releases (s : State) (v : VnodeNr) (call : CallNr) (p : ProcNr) : Bool :=
  s.live p && s.blocked p && !(s.proc p).revived && decide ((s.proc p).saved.call = call) &&
    decide (s.savedVnode p = some v)

/-- `revive`, with the count of suspended processes. -/
def releaseOne (s : State) (p : ProcNr) : State :=
  let s1 :=
    match (s.proc p).endpoint with
    | none => s
    | some e => s.revive e 0
  let s2 := { s1 with suspCount := s1.suspCount - 1 }
  if s2.suspCount < 0 then s2.panic .suspNegative else s2

/-- The loop of `release`. -/
def releaseLoop (v : VnodeNr) (call : CallNr) : List ProcNr → Int → State → State
  | [], _, s => s
  | p :: rest, count, s =>
      if count ≤ 0 then s
      else if s.releases v call p then releaseLoop v call rest (count - 1) (s.releaseOne p)
      else releaseLoop v call rest count s

/-- `release(vp, call_nr, count)` -/
def release (s : State) (v : VnodeNr) (call : CallNr) (count : Int) : State :=
  let s1 := if call = .read ∨ call = .write then s.releaseSelect v call else s
  releaseLoop v call (List.finRange nrProcs) count s1

/-! ## Other ways on -/

/-- What `lock_revive` does for one process; those up to INIT are not looked at. -/
def lockReviveOne (s : State) (p : ProcNr) : State :=
  if initProcNr < p.val ∧ s.live p ∧ (s.proc p).blockedOn = .lock then
    match (s.proc p).endpoint with
    | none => s
    | some e => s.revive e 0
  else s

/-- `lock_revive()` -/
def lockRevive (s : State) : State := (List.finRange nrProcs).foldl lockReviveOne s

/-- What `unsuspend_by_endpt` does for one process. -/
def unsuspendOne (driver : Endpoint) (s : State) (p : ProcNr) : State :=
  if s.live p ∧ (s.proc p).blockedOn = .other ∧ (s.proc p).task = driver then
    match (s.proc p).endpoint with
    | none => s
    | some e => s.revive e eagain
  else s

/-- `unsuspend_by_endpt(proc_e)` -/
def unsuspendByEndpt (s : State) (e : Endpoint) : State :=
  ((List.finRange nrProcs).foldl (unsuspendOne e) s).selectUnsuspendByEndpt e

/-- The end of `unpause`: the call is interrupted. -/
def interrupt (s : State) (p : ProcNr) (e : Endpoint) (status : Int) : State := (s.goOn p).reply e status

/-- `unpause(proc_nr_e)`.  `cancel` is the answer of the driver to CANCEL, `none` for
SUSPEND. -/
def unpause (s : State) (e : Endpoint) (cancel : Option Int) : State :=
  match s.isokendpt e with
  | none => s
  | some p =>
      if (s.proc p).blockedOn = .none then s
      else
        let s1 := if (s.proc p).revived then s.unmark p else s
        match (s.proc p).blockedOn with
        | .none => s
        | .pipe | .popen =>
            let s2 := s1.interrupt p e eintr
            if (s.proc p).revived then s2 else { s2 with suspCount := s2.suspCount - 1 }
        | .lock => s1.interrupt p e eintr
        | .select => (s1.selectForget e).interrupt p e eintr
        -- An open is not cancelled; it goes on until it completes.
        | .dopen => s1
        | .other =>
            if (s.proc p).suspReopen then (s1.setProc p { s1.proc p with suspReopen := false }).interrupt p e eintr
            else
              match cancel with
              | none => s1
              | some status =>
                  (s1.setProc p { s1.proc p with grant := none }).interrupt p e (if status = eagain then eintr else status)

end State

end Minix.Vfs
