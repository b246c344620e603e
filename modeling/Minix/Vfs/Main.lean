/-
  Vfs/Main.lean --- the main loop: `main.c`, with `pm_fork` and `free_proc` of `misc.c` and the
  restart of drivers of `device.c` and `dmap.c`.

  An iteration of the loop either goes once over the processes that are being revived, or
  takes a message.  A process that waits for the file system sends nothing else, since user
  processes may only use SENDREC.
-/
import Minix.Vfs.Calls

set_option autoImplicit false

namespace Minix.Vfs

/-! ## Messages -/

/-- The calls of processes.  A call that touches nothing of the state is `other`. -/
inductive Call where
  | read (fd buf nbytes : Int) (env : IoEnv)
  | write (fd buf nbytes : Int) (env : IoEnv)
  | openFile (creat : Bool) (flags : OpenFlags) (found : Found) (env : OpenEnv)
  | close (fd : Int) (truncated : Bool)
  | pipe (newnode : Option Nat)
  | dup (fd : Int) (fd2 : Option Int) (truncated : Bool)
  | dupfd (fd start : Int)
  | setfl (fd : Int) (nonblock append reopen : Bool)
  | lock (fd : Int) (cmd : LockCmd) (k : Flock)
  | freesp (fd : Int) (k : Flock) (copied reply : Int)
  | lseek (fd : Int) (offset : BitVec 32) (whence : Whence) (inhibread : Int)
  | llseek (fd : Int) (offset : BitVec 64) (whence : Whence) (inhibread : Int)
  | getdents (fd : Int) (reply : Int × BitVec 32)
  | truncate (found : Found) (access : Int) (length : BitVec 32) (ok : Bool)
  | ftruncate (fd : Int) (length : BitVec 32) (ok : Bool)
  | ioctl (fd request : Int) (a : DevReply)
  | select (a : State.SelectArgs)
  | mapdriver (major : Major) (driver : Endpoint) (allowed up : Bool) (reopened : FilpNr → Int)
  | other (r : Int)

/-- An answer to DEV_STATUS. -/
inductive StatusReply where
  | revive (named : Option Endpoint) (grant : Option Nat) (status : Int)
  | ioReady (minor : Nat) (ops : SelOps)

/-- What the main loop receives. -/
inductive Message where
  | call (p : ProcNr) (c : Call)
  | devRevive (source : Endpoint) (named : Option Endpoint) (grant : Option Nat) (status : Int)
  | reopenReply (source : Endpoint) (n : Int) (status : Int) (reopened : FilpNr → Int)
  | selectReply1 (source : Endpoint) (minor : Nat) (status : Option SelOps) (truncated : Bool)
  | selectReply2 (source : Endpoint) (minor : Nat) (status : Option SelOps)
  | clock (expired : List SelNr)
  | devNotify (source : Endpoint) (answers : List StatusReply)
  | pmFork (parent child : Endpoint) (pid : Nat)
  | pmExit (e : Endpoint) (cancel : Option Int) (truncated : Fd → Bool)
  | pmUnpause (e : Endpoint) (cancel : Option Int)

/-- What a process that is being revived meets. -/
structure ReviveEnv where
  copy : Copy
  flock : Flock

/-- The input of one iteration. -/
inductive Input where
  | revived (env : ProcNr → ReviveEnv)
  | message (m : Message)

namespace State

/-! ## Drivers -/

/-- `invalidate(fp)` -/
def invalidate (s : State) (n : FilpNr) : State :=
  { s with proc := fun p =>
      if s.live p then { s.proc p with fds := fun fd => if (s.proc p).fds fd = some n then none else (s.proc p).fds fd }
      else s.proc p }

/-- The filps of `restart_reopen`: `true` says that a reopen has been sent to the driver. -/
def reopenFilps (major : Major) (reopened : FilpNr → Int) : List FilpNr → State → Bool × State
  | [], s => (false, s)
  | n :: rest, s =>
      let f := s.filp n
      if f.count < 1 ∨ !f.needsReopen ∨ !s.selectMajorMatch major n then reopenFilps major reopened rest s
      else if f.reopen ∧ reopened n = 0 then (true, s)
      else
        reopenFilps major reopened rest ((s.invalidate n).setCount n 0)

/-- A process that waits for the driver to be reopened. -/
def restartOne (driver : Endpoint) (s : State) (p : ProcNr) : State :=
  if s.live p ∧ (s.proc p).blockedOn = .other ∧ (s.proc p).task = driver ∧ (s.proc p).suspReopen then
    let s1 := s.setProc p { s.proc p with suspReopen := false, blockedOn := .none }
    match (s.proc p).endpoint with
    | none => s1
    | some e => s1.reply e erestart
  else s

/-- The processes that wait for the driver to be reopened. -/
def restartWaiting (s : State) (driver : Endpoint) : State := (List.finRange nrProcs).foldl (restartOne driver) s

/-- One process of the last loop of `restart_reopen`. -/
def restartOpen (major : Major) (s : State) (p : ProcNr) : State :=
  let f := s.proc p
  if !s.live p ∨ f.blockedOn = .dopen ∨ !f.suspReopen then s
  else
    match (fdOf f.saved.fd).bind f.fds with
    | none =>
        let s1 := s.setProc p { f with
          blockedOn := .none
          inuse := fun fd => if (fd.val : Int) = f.saved.fd then false else f.inuse fd }
        match f.endpoint with
        | none => s1
        | some e => s1.reply e eio
    | some n =>
        if s.selectMajorMatch major n then
          match f.endpoint with
          | none => s.goOn p
          | some e => (s.goOn p).reply e f.saved.fd
        else s

/-- The last loop of `restart_reopen`.  It passes by the processes that wait for an open, and
looks at all others that have the flag. -/
def restartOpens (s : State) (major : Major) : State := (List.finRange nrProcs).foldl (restartOpen major) s

/-- `restart_reopen(maj)` -/
def restartReopen (s : State) (major : Major) (reopened : FilpNr → Int) : State :=
  match reopenFilps major reopened (List.finRange nrFilps) s with
  | (true, s1) => s1
  | (false, s1) =>
      match s1.dmap major with
      | none => s1.restartOpens major
      | some driver => (s1.restartWaiting driver).restartOpens major

/-- Whether a process waits for an open of a device of the driver.  A descriptor that is gone is
not looked at; that the source follows the pointer all the same is left out. -/
def waitsForOpen (s : State) (major : Major) (p : ProcNr) : Prop :=
  s.live p = true ∧ (s.proc p).blockedOn = .dopen ∧
    ((fdOf (s.proc p).saved.fd).bind (s.proc p).fds).any (s.selectMajorMatch major) = true

instance (s : State) (major : Major) : DecidablePred (s.waitsForOpen major) := fun _ => inferInstanceAs (Decidable (_ ∧ _))

/-- The processes that wait for an open get SUSP_REOPEN. -/
def flagOpens (s : State) (major : Major) : State :=
  { s with proc := fun p => if s.waitsForOpen major p then { s.proc p with suspReopen := true } else s.proc p }

/-- Whether a filp is to be opened again.  The test of the mode is also true for directories. -/
def stale (s : State) (major : Major) (n : FilpNr) : Prop :=
  1 ≤ (s.filp n).count ∧ ((s.filp n).vnode.any fun v =>
    decide ((s.vnode v).type ≠ .regular ∧ (s.vnode v).type ≠ .fifo) &&
      decide ((s.vnode v).sdev.map Prod.fst = some major)) = true

instance (s : State) (major : Major) : DecidablePred (s.stale major) := fun _ => inferInstanceAs (Decidable (_ ∧ _))

/-- The filps of the driver are to be opened again. -/
def markStale (s : State) (major : Major) : State :=
  { s with filp := fun n => if s.stale major n then { s.filp n with needsReopen := true } else s.filp n }

/-- `dev_up(maj)`; what is sent for mounted devices is left out. -/
def devUp (s : State) (major : Major) (reopened : FilpNr → Int) : State :=
  let s1 := (s.flagOpens major).markStale major
  if ∃ n, s.stale major n then s1.restartReopen major reopened else s1

theorem toNat_lt_nrFilps {n : Int} (h : 0 ≤ n ∧ n < nrFilps) : n.toNat < nrFilps := by
  omega

/-- `reopen_reply()` -/
def reopenReply (s : State) (source : Endpoint) (n status : Int) (reopened : FilpNr → Int) : State :=
  if h : 0 ≤ n ∧ n < nrFilps then
    let k : FilpNr := ⟨n.toNat, toNat_lt_nrFilps h⟩
    if (s.filp k).count < 1 then s
    else
      match (s.filp k).vnode with
      | none => s
      | some v =>
          if !(s.filp k).needsReopen ∨ (s.vnode v).type ≠ .charSpecial then s
          else
            match (s.vnode v).sdev with
            | none => s
            | some (major, _) =>
                if s.dmap major ≠ some source then s
                else if status ≠ 0 then s
                else (s.setFilp k { s.filp k with needsReopen := false }).restartReopen major reopened
  else s

/-- `suspended_ep(driver, g)` -/
def suspendedEp (s : State) (driver : Endpoint) (g : Option Nat) : Option Endpoint :=
  ((List.finRange nrProcs).find? fun p =>
    s.live p && decide ((s.proc p).blockedOn = .other) && decide ((s.proc p).task = driver) &&
      decide ((s.proc p).grant = g)).bind fun p => (s.proc p).endpoint

/-- DEV_REVIVE, as a message or as an answer to DEV_STATUS.  `named` is `none` when REP_ENDPT is
the file system itself. -/
def devRevive (s : State) (source : Endpoint) (named : Option Endpoint) (grant : Option Nat) (status : Int) : State :=
  match named with
  | some e => s.revive e status
  | none =>
      match s.suspendedEp source grant with
      | none => s
      | some e => s.revive e status

/-- One answer to DEV_STATUS. -/
def statusReply (source : Endpoint) (d : Major) (s : State) : StatusReply → State
  | .revive named grant status => s.devRevive source named grant status
  | .ioReady minor ops => s.selectNotified d minor ops

/-- `dev_status(m)` -/
def devStatus (s : State) (source : Endpoint) (answers : List StatusReply) : State :=
  match s.driverMajor source with
  | none => s
  | some d =>
      if d.val ∈ asyncMajors then s else answers.foldl (statusReply source d) s

/-! ## Processes -/

/-- `pm_fork(pproc, cproc, cpid)` -/
def pmFork (s : State) (parent child : Endpoint) (pid : Nat) : State :=
  match s.isokendpt parent with
  | none => s
  | some p =>
      if h : 0 ≤ child.nr ∧ child.nr < nrProcs then
        let c : ProcNr := ⟨child.nr.toNat, toNat_nr_lt h⟩
        let s1 := s.setProc c { s.proc p with pid := pid, endpoint := some child }
        { s1 with filp := fun n =>
            { s1.filp n with
              count := (s1.filp n).count + ((List.finRange openMax).countP fun fd => decide ((s.proc p).fds fd = some n)) } }
      else s

/-- `free_proc(exiter, FP_EXITING)`.  The directories of the process and its terminal are left
out. -/
def freeProc (s : State) (p : ProcNr) (e : Endpoint) (cancel : Option Int) (truncated : Fd → Bool) : State :=
  let s1 := if s.blocked p then s.unpause e cancel else s
  let s2 := (List.finRange openMax).foldl (fun s fd => (s.closeFd p fd.val (truncated fd)).2) s1
  let s3 := s2.unsuspendByEndpt e
  s3.setProc p { s3.proc p with endpoint := none, pid := 0 }

/-! ## The loop -/

/-- The reply to a call that is done. -/
def answer (who : Endpoint) (out : Option Int × State) : State :=
  match out with
  | (none, s) => s
  | (some r, s) => s.reply who r

/-- A call of a process. -/
def doCall (s : State) (p : ProcNr) (e : Endpoint) : Call → Option Int × State
  | .read fd buf nbytes env => s.readWrite p .reading fd buf nbytes env
  | .write fd buf nbytes env => s.readWrite p .writing fd buf nbytes env
  | .openFile creat flags found env => s.commonOpen p (if creat then .creat else .openCall) flags found env
  | .close fd truncated => let (r, s1) := s.closeFd p fd truncated; (some r, s1)
  | .pipe newnode => let (r, s1) := s.doPipe p newnode; (some r, s1)
  | .dup fd fd2 truncated => let (r, s1) := s.doDup p fd fd2 truncated; (some r, s1)
  | .dupfd fd start =>
      match s.getFilp p fd with
      | .error r => (some r, s)
      | .ok (_, n) => let (r, s1) := s.doDupfd p n start; (some r, s1)
  | .setfl fd nonblock append reopen =>
      match s.getFilp p fd with
      | .error r => (some r, s)
      | .ok (_, n) => (some 0, s.doSetfl n nonblock append reopen)
  | .lock fd cmd k =>
      match s.getFilp p fd with
      | .error r => (some r, s)
      | .ok (_, n) => s.doLock p fd n cmd k
  | .freesp fd k copied reply =>
      match s.getFilp p fd with
      | .error r => (some r, s)
      | .ok (_, n) => let (r, s1) := s.doFreesp n k copied reply; (some r, s1)
  | .lseek fd offset whence inhibread => let (r, s1) := s.doLseek p fd offset whence inhibread; (some r, s1)
  | .llseek fd offset whence inhibread => let (r, s1) := s.doLlseek p fd offset whence inhibread; (some r, s1)
  | .getdents fd reply => let (r, s1) := s.doGetdents p fd reply; (some r, s1)
  | .truncate found access length ok => let (r, s1) := s.doTruncate found access length ok; (some r, s1)
  | .ftruncate fd length ok => let (r, s1) := s.doFtruncate p fd length ok; (some r, s1)
  | .ioctl fd request a => s.doIoctl p fd request a
  | .select a => s.doSelect p e a
  | .mapdriver major driver allowed up reopened =>
      if !allowed then (some eperm, s)
      else
        let s1 := { s with dmap := Function.update s.dmap major (some driver) }
        (some 0, if up then s1.devUp major reopened else s1)
  | .other r => (some r, s)

/-- One message. -/
def handle (s : State) : Message → State
  | .call p c =>
      match (s.proc p).endpoint with
      | none => s
      | some e => answer e (s.doCall p e c)
  | .devRevive source named grant status => s.devRevive source named grant status
  | .reopenReply source n status reopened => s.reopenReply source n status reopened
  | .selectReply1 source minor status truncated => s.selectReply1 source minor status truncated
  | .selectReply2 source minor status => s.selectReply2 source minor status
  | .clock expired => expired.foldl (fun s i => s.selectTimeoutCheck i) s
  | .devNotify source answers => s.devStatus source answers
  | .pmFork parent child pid => s.pmFork parent child pid
  | .pmExit e cancel truncated =>
      match s.isokendpt e with
      | none => s
      | some p => s.freeProc p e cancel truncated
  | .pmUnpause e cancel => s.unpause e cancel

/-- A process that is being revived: what `get_work` takes from its slot. -/
def take (s : State) (p : ProcNr) : State := (s.unmark p).goOn p

/-- The pipe of a process that is being revived is tried again. -/
def retryPipe (s : State) (p : ProcNr) (e : Endpoint) (k : SavedCall) (c : Copy) : State :=
  match s.getFilp p k.fd with
  | .error _ => s.panic .filpAssert
  | .ok (_, n) => answer e (s.rwPipe p (if k.call = .read then .reading else .writing) k.fd n k.buffer k.nbytes c)

/-- The lock of a process that is being revived is tried again. -/
def retryLock (s : State) (p : ProcNr) (e : Endpoint) (k : SavedCall) (flock : Flock) : State :=
  match s.getFilp p k.fd with
  | .error r => s.reply e r
  | .ok (_, n) => answer e (s.doLock p k.fd n .setlkw flock)

/-- The loop of `get_work` over the processes.  It ends at a process that has waited for a
lock: its call goes back to the main loop. -/
def getWork (env : ProcNr → ReviveEnv) : List ProcNr → Bool → State → State
  | [], found, s => if found then s else s.panic .noneRevived
  | p :: rest, found, s =>
      if s.live p && (s.proc p).revived then
        let k := (s.proc p).saved
        let s1 := s.take p
        match (s.proc p).endpoint with
        | none => s1
        | some e =>
            if (s.proc p).blockedOn = .pipe then getWork env rest true (s1.retryPipe p e k (env p).copy)
            else s1.retryLock p e k (env p).flock
      else getWork env rest found s

/-- One iteration of the main loop. -/
def iterate (s : State) : Input → State
  | .revived env => if s.reviving ≠ 0 then getWork env (List.finRange nrProcs) false s else s
  | .message m => if s.reviving = 0 then s.handle m else s

end State

/-- What can be received in a state: a call comes from a process that is not suspended, and the
process manager forks such a process, into a free slot. -/
def Message.Sendable (s : State) : Message → Prop
  | .call p _ => s.live p = true ∧ s.blocked p = false
  | .pmFork parent child pid => pid ≠ 0 ∧ (∃ p, s.isokendpt parent = some p ∧ s.live p = true ∧ s.blocked p = false) ∧
      (0 ≤ child.nr ∧ child.nr < nrProcs) ∧ ∀ p : ProcNr, (p.val : Int) = child.nr → s.live p = false
  | _ => True

/-- An iteration that can be: VFS has not stopped, and what it receives can be sent. -/
inductive Iterates : State → Input → State → Prop
  | revived (s : State) (env : ProcNr → ReviveEnv) (hrun : s.panics = []) (hreviving : s.reviving ≠ 0) :
      Iterates s (.revived env) (s.iterate (.revived env))
  | message (s : State) (m : Message) (hrun : s.panics = []) (hreviving : s.reviving = 0) (hsend : m.Sendable s) :
      Iterates s (.message m) (s.iterate (.message m))

end Minix.Vfs
