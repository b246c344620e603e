/-
  Vfs/Calls.lean --- the calls on open files: `open.c`, `read.c`, `filedes.c`, the calls of
  `misc.c` and `link.c` on descriptors, `do_select` and `dev_io`.

  What other servers and drivers answer, and what is found at a path, are arguments of the
  call.
-/
import Minix.Vfs.Pipe

set_option autoImplicit false

namespace Minix.Vfs

open Function

/-! ## Arguments -/

/-- The flags of an open. -/
structure OpenFlags where
  readable : Bool
  writable : Bool
  trunc : Bool
  nonblock : Bool
  append : Bool
  reopen : Bool
  deriving DecidableEq, Repr

/-- What a file system says about an inode. -/
structure NodeInfo where
  fs : Nat
  inode : Nat
  type : FileType
  size : Int
  sdev : Option (Major × Nat)
  deriving DecidableEq, Repr

/-- What is found at the path of an open: an error, a file that is there, or a file that has
been made. -/
inductive Found where
  | error (r : Int)
  | node (info : NodeInfo) (created : Bool)
  deriving DecidableEq, Repr

/-- The answer of a driver; `none` is SUSPEND. -/
structure DevReply where
  status : Option Int
  gone : Bool
  cancelled : Int
  grant : Nat
  deriving DecidableEq, Repr

/-- The answers in the course of an open.  `access` and `truncAccess` are the results of
`forbidden`; `access` is EEXIST for a file that must not be there. -/
structure OpenEnv where
  access : Int
  truncAccess : Int
  device : Option Int
  newnode : Option Nat
  truncated : Bool
  deriving DecidableEq, Repr

/-- The `flock` structure of a process. -/
structure Flock where
  copied : Bool
  type : LockType
  whence : Whence
  start : BitVec 32
  len : BitVec 32

/-- The answer of a file system to REQ_READ and REQ_WRITE. -/
structure FsReply where
  r : Int
  pos : BitVec 32
  nbytes : Int
  deriving DecidableEq, Repr

/-- The answers in the course of a read or write. -/
structure IoEnv where
  copy : Copy
  device : DevReply
  file : FsReply
  block : Int × BitVec 64 × Int

/-- What `get_fd` writes to a filp. -/
def Filp.fresh (f : Filp) (readable writable : Bool) : Filp :=
  { f with
    readable := readable, writable := writable, pos := 0#64, selectors := 0
    selectOps := .empty, selUpdate := false, selBusy := false, selBlock := false
    pipeSelectOps := .empty, nonblock := false, append := false, reopen := false
    needsReopen := false }

/-- What is written to a free vnode for an inode that has been found. -/
def NodeInfo.fill (info : NodeInfo) (x : Vnode) : Vnode :=
  { x with
    fs := .other info.fs, inode := info.inode, mapped := none, type := info.type
    size := info.size, refCount := 1, pipe := false, sdev := info.sdev }

/-- Whether the filp is open for the request. -/
def Filp.may (f : Filp) : Rw → Bool
  | .reading => f.readable
  | .writing => f.writable

namespace State

/-! ## Descriptors -/

/-- `get_fd(start, bits, k, fpt)` -/
def getFd (s : State) (p : ProcNr) (start : Nat) (readable writable : Bool) : Except Int (Fd × FilpNr × State) :=
  match (List.finRange openMax).find? fun fd =>
      decide (start ≤ fd.val) && ((s.proc p).fds fd).isNone && !(s.proc p).inuse fd with
  | none => .error emfile
  | some fd =>
      match (List.finRange nrFilps).find? fun n => decide ((s.filp n).count = 0) with
      | none => .error enfile
      | some n =>
          .ok (fd, n, s.setFilp n ((s.filp n).fresh readable writable))

/-- `get_free_vnode()` -/
def getFreeVnode (s : State) : Option VnodeNr :=
  (List.finRange nrVnodes).find? fun v => decide ((s.vnode v).refCount = 0)

/-- The vnode of an inode, with one more reference: the end of `advance`. -/
def getVnode (s : State) (info : NodeInfo) : Except Int (VnodeNr × State) :=
  match (List.finRange nrVnodes).find? fun v =>
      decide (0 < (s.vnode v).refCount) && decide ((s.vnode v).inode = info.inode) &&
        decide ((s.vnode v).fs = .other info.fs) with
  | some v => .ok (v, s.setVnode v { s.vnode v with refCount := (s.vnode v).refCount + 1 })
  | none =>
      match s.getFreeVnode with
      | none => .error enfile
      | some v => .ok (v, s.setVnode v (info.fill (s.vnode v)))

/-- The end of `close_filp`: one reference less, and the last one gives the vnode back. -/
def lessFilp (s : State) (n : FilpNr) (v : VnodeNr) (truncated : Bool) : State :=
  let s1 := s.setCount n ((s.filp n).count - 1)
  if (s1.filp n).count = 0 then
    let s2 := if (s1.vnode v).pipe then (s1.truncateVnode v (s1.vnode v).size truncated).2 else s1
    s2.putVnode v
  else s1

/-- A special file that is closed for the last time gets the mode FILP_CLOSED. -/
def markClosed (s : State) (n : FilpNr) (v : VnodeNr) : State :=
  if (s.filp n).count - 1 = 0 ∧ ((s.vnode v).type = .charSpecial ∨ (s.vnode v).type = .blockSpecial) then
    s.setFilp n { s.filp n with readable := false, writable := false }
  else s

/-- `close_filp(fp)` -/
def closeFilp (s : State) (n : FilpNr) (truncated : Bool) : State :=
  match (s.filp n).vnode with
  | none => s
  | some v =>
      let s1 := s.markClosed n v
      let s2 :=
        if (s1.vnode v).pipe then s1.release v (if (s1.filp n).readable then .write else .read) nrProcs else s1
      s2.lessFilp n v truncated

/-- `close_fd(rfp, fd_nr)` -/
def closeFd (s : State) (p : ProcNr) (fd : Int) (truncated : Bool) : Int × State :=
  match s.getFilp p fd with
  | .error r => (r, s)
  | .ok (fd, n) =>
      let v := (s.filp n).vnode
      let s1 := (s.closeFilp n truncated).setFd p fd none false
      match v with
      | none => (0, s1)
      | some v =>
          let locks := releaseLocks s1.locks (s1.proc p).pid v.val
          let s2 := { s1 with locks := locks }
          (0, if locks.count < s1.locks.count then s2.lockRevive else s2)

/-! ## Opening -/

/-- `pipe_open(vp, bits, oflags)`; `none` is SUSPEND. -/
def pipeOpen (s : State) (p : ProcNr) (v : VnodeNr) (flags : OpenFlags) (saved : SavedCall) : Option Int × State :=
  let s1 := s.setVnode v { s.vnode v with pipe := true }
  if flags.readable ∧ flags.writable then (some enxio, s1)
  else if (s1.findFilp v (if flags.writable then .reading else .writing)).isNone then
    if flags.nonblock then (if flags.writable then some enxio else some 0, s1)
    else (none, s1.suspend p .popen saved)
  else if 0 < s1.suspCount then
    let s2 := s1.release v .openCall s1.suspCount
    (some 0, s2.release v .creat s2.suspCount)
  else (some 0, s1)

/-- `map_vnode(vp)`; `newnode` is the inode that the pipe file system has for it. -/
def mapVnode (s : State) (v : VnodeNr) (newnode : Option Nat) : Int × State :=
  match (s.vnode v).mapped with
  | some _ => (0, s)
  | none =>
      match s.pfsNewnode newnode with
      | none => (enospc, s)
      | some (i, s1) => (0, s1.setVnode v { s1.vnode v with mapped := some i })

/-- The named pipe is made ready: it is mapped, and it is empty if nobody else has it open. -/
def fifoStart (s : State) (n : FilpNr) (v : VnodeNr) (flags : OpenFlags) (env : OpenEnv) : Int × State :=
  match s.mapVnode v env.newnode with
  | (r, s1) =>
      if r ≠ 0 then (r, s1)
      else
        let s2 := s1.setVnode v { s1.vnode v with pipe := true }
        let (r, s3) :=
          if (s2.vnode v).refCount = 1 then
            let s3 := s2.setVnode v { s2.vnode v with rdPos := 0, wrPos := 0 }
            if (s3.vnode v).size ≠ 0 then s3.truncateVnode v 0 env.truncated else (0, s3)
          else (0, s2)
        -- Pipes are always in append mode.
        (r, s3.setFilp n { s3.filp n with append := true, nonblock := flags.nonblock, reopen := flags.reopen })

/-- Another filp that is open for the same is used instead, if there is one. -/
def fifoShare (s : State) (p : ProcNr) (fd : Fd) (n : FilpNr) (v : VnodeNr) (flags : OpenFlags) : State :=
  let s1 := s.setCount n 0
  match s1.findFilp v (if flags.readable then .reading else .writing) with
  | some m =>
      let s2 := s1.setFd p fd (some m) true
      let s3 := s2.setFilp m { s2.filp m with
        count := (s2.filp m).count + 1, vnode := some v, nonblock := flags.nonblock, append := true, reopen := flags.reopen }
      s3.putVnode v
  | none => s1.setCount n 1

/-- The branch of `common_open` for a named pipe. -/
def openFifo (s : State) (p : ProcNr) (fd : Fd) (n : FilpNr) (v : VnodeNr) (flags : OpenFlags) (env : OpenEnv)
    (saved : SavedCall) : Option Int × State :=
  match s.fifoStart n v flags env with
  | (r1, s1) =>
      match if r1 = 0 then s1.pipeOpen p v flags saved else (some r1, s1) with
      | (r2, s2) => if r2 = some enxio then (r2, s2) else (r2, s2.fifoShare p fd n v flags)

/-- The descriptor and the filp of an open, with the vnode that has been found. -/
def claim (s : State) (p : ProcNr) (fd : Fd) (n : FilpNr) (v : VnodeNr) (flags : OpenFlags) : State :=
  let s1 := s.setFd p fd (some n) true
  s1.setFilp n { s1.filp n with
    count := 1, vnode := some v, nonblock := flags.nonblock, append := flags.append, reopen := flags.reopen }

/-- The descriptor of an open that has failed is given back. -/
def undoOpen (s : State) (p : ProcNr) (fd : Fd) (n : FilpNr) (v : VnodeNr) : State :=
  (s.setFd p fd none false).dropFilp n v

/-- The part of `common_open` that depends on the type of a file that is there. -/
def openType (s : State) (p : ProcNr) (fd : Fd) (n : FilpNr) (v : VnodeNr) (flags : OpenFlags) (env : OpenEnv)
    (saved : SavedCall) : Option Int × State :=
  match (s.vnode v).type with
  | .regular =>
      if flags.trunc then
        if env.truncAccess = 0 then (some 0, (s.truncateVnode v 0 env.truncated).2) else (some env.truncAccess, s)
      else (some 0, s)
  | .directory => (some (if flags.writable then eisdir else 0), s)
  | .charSpecial =>
      match env.device with
      | none => (none, s.suspend p .dopen saved)
      | some r => (some r, s)
  | .blockSpecial => (some (env.device.getD enxio), s)
  | .fifo => s.openFifo p fd n v flags env saved
  | .symlink => (some 0, s)

/-- The end of `common_open`. -/
def finishOpen (p : ProcNr) (fd : Fd) (n : FilpNr) (v : VnodeNr) : Option Int × State → Option Int × State
  | (none, s) => (none, s)
  | (some r, s) => if r = 0 then (some fd.val, s) else (some r, s.undoOpen p fd n v)

/-- `common_open(oflags, omode)`; `none` is SUSPEND. -/
def commonOpen (s : State) (p : ProcNr) (call : CallNr) (flags : OpenFlags) (found : Found) (env : OpenEnv) :
    Option Int × State :=
  if !flags.readable ∧ !flags.writable then (some einval, s)
  else
    match s.getFd p 0 flags.readable flags.writable with
    | .error r => (some r, s)
    | .ok (fd, n, s1) =>
        match found with
        | .error r => (some r, s1)
        | .node info created =>
            -- A file that has been made is a regular file.
            match s1.getVnode (if created then { info with type := .regular } else info) with
            | .error r => (some r, s1)
            | .ok (v, s2) =>
                let s3 := s2.claim p fd n v flags
                finishOpen p fd n v
                  (if created then (some 0, s3)
                  else if env.access ≠ 0 then (some env.access, s3)
                  else s3.openType p fd n v flags env ⟨fd.val, call, 0, 0⟩)

/-- `do_pipe()`; `newnode` is the inode of the pipe file system. -/
def doPipe (s : State) (p : ProcNr) (newnode : Option Nat) : Int × State :=
  match s.getFreeVnode with
  | none => (enfile, s)
  | some v =>
      match s.getFd p 0 true false with
      | .error r => (r, s)
      | .ok (fd0, n0, s1) =>
          let s2 := s1.setFd p fd0 (some n0) true
          let s3 := s2.setCount n0 1
          let undo0 (s : State) : State := (s.setFd p fd0 none false).setCount n0 0
          match s3.getFd p 0 false true with
          | .error r => (r, undo0 s3)
          | .ok (fd1, n1, s4) =>
              let s5 := s4.setFd p fd1 (some n1) true
              let s6 := s5.setCount n1 1
              match s6.pfsNewnode newnode with
              | none => (enospc, ((undo0 s6).setFd p fd1 none false).setCount n1 0)
              | some (i, s7) =>
                  let s8 := s7.setVnode v { s7.vnode v with
                    fs := .pfs, inode := i, mapped := some i, type := .fifo, size := 0
                    refCount := 2, pipe := true, rdPos := 0, wrPos := 0 }
                  (0, (s8.setFile n0 (some v)).setFile n1 (some v))

/-! ## Devices -/

/-- `dev_io` for a process that reads, writes or controls; `none` is SUSPEND. -/
def devIo (s : State) (p : ProcNr) (dev : Option (Major × Nat)) (nonblock asyncDriver suspendReopen : Bool)
    (saved : SavedCall) (a : DevReply) : Option Int × State :=
  match dev.bind fun d => (s.dmap d.1).map fun e => (d.1, e) with
  | none => (some enxio, s)
  | some (_, driver) =>
      if suspendReopen then
        let s1 := s.setProc p { s.proc p with grant := none }
        let s2 := s1.waitFor p driver saved
        (none, s2.setProc p { s2.proc p with suspReopen := true })
      else if (s.isokendpt driver).isNone then (some enxio, s)
      else if a.gone then
        (some eio, { s with dmap := fun m => if s.dmap m = some driver then none else s.dmap m })
      else
        match a.status with
        | some r => (some r, s)
        | none =>
            if nonblock ∧ !asyncDriver then (some a.cancelled, s)
            else
              let s1 := s.waitFor p driver saved
              (none, s1.setProc p { s1.proc p with grant := some a.grant })

/-- The majors of asynchronous drivers. -/
def asyncMajors : List Nat := [13, 15, 16]

def isAsync (dev : Option (Major × Nat)) : Bool := dev.any fun d => decide (d.1.val ∈ asyncMajors)

/-! ## Reading and writing -/

/-- The part of `read_write` for a character special file. -/
def ioChar (s : State) (p : ProcNr) (rw : Rw) (fd : Int) (n : FilpNr) (x : Vnode) (buf nbytes : Int) (a : DevReply) :
    Option Int × State :=
  let f := s.filp n
  match s.devIo p x.sdev f.nonblock (isAsync x.sdev) f.needsReopen ⟨fd, rw.call, buf, nbytes⟩ a with
  | (none, s1) => (none, s1)
  | (some r, s1) =>
      if 0 ≤ r then (some r, s1.setFilp n { s1.filp n with pos := f.pos + BitVec.ofInt 64 r }) else (some r, s1)

/-- The part of `read_write` for a block special file. -/
def ioBlock (s : State) (n : FilpNr) (block : Int × BitVec 64 × Int) : Option Int × State :=
  (some (if block.1 = 0 then block.2.2 else block.1), s.setFilp n { s.filp n with pos := block.2.1 })

/-- The part of `read_write` for a file of another file system. -/
def ioFile (s : State) (rw : Rw) (n : FilpNr) (v : VnodeNr) (reply : FsReply) : Option Int × State :=
  let f := s.filp n
  let x := s.vnode v
  let pos := if rw = .writing ∧ f.append then BitVec.ofInt 64 (u32 x.size) else f.pos
  if pos.toNat / 2 ^ 32 ≠ 0 then (some eio, s.panic .posTooLarge)
  else
    let pos1 : BitVec 64 := if reply.r = 0 then reply.pos.setWidth 64 else pos
    let grows : Bool := rw = .writing ∧ (x.type = .regular ∨ x.type = .directory) ∧ u32 x.size < pos1.toNat
    if 0 ≤ reply.r ∧ pos1.toNat / 2 ^ 32 ≠ 0 then (some eio, s.panic .badNewPos)
    else if grows ∧ pos1.toNat / 2 ^ 32 ≠ 0 then (some eio, s.panic .sizeTooBig)
    else
      let s1 := if grows then s.setSize v (i32 pos1.toNat) else s
      (some (if reply.r = 0 then reply.nbytes else reply.r), s1.setFilp n { s1.filp n with pos := pos1 })

/-- `read_write(rw_flag)`; `none` is SUSPEND. -/
def readWrite (s : State) (p : ProcNr) (rw : Rw) (fd buf nbytes : Int) (env : IoEnv) : Option Int × State :=
  if nbytes < 0 then (some einval, s)
  else
    match s.getFilp p fd with
    | .error r => (some r, s)
    | .ok (_, n) =>
        let f := s.filp n
        if !f.may rw then (some (if !f.readable && !f.writable then eio else ebadf), s)
        else if nbytes = 0 then (some 0, s)
        else
          match f.vnode with
          | none => (some eio, s)
          | some v =>
              let x := s.vnode v
              if x.pipe then
                if (s.proc p).cumIoPartial ≠ 0 then (some eio, s.panic .partialNotClear)
                else
                  let s1 := if rw = .writing then { s with log := .writeCall p nbytes :: s.log } else s
                  s1.rwPipe p rw fd n buf nbytes env.copy
              else
                match x.type with
                | .charSpecial => s.ioChar p rw fd n x buf nbytes env.device
                | .blockSpecial => s.ioBlock n env.block
                | _ => s.ioFile rw n v env.file

/-- `do_getdents()`; `reply` is the result and the new position. -/
def doGetdents (s : State) (p : ProcNr) (fd : Int) (reply : Int × BitVec 32) : Int × State :=
  match s.getFilp p fd with
  | .error r => (r, s)
  | .ok (_, n) =>
      if !(s.filp n).readable then (ebadf, s)
      else if ((s.filp n).vnode.map fun v => (s.vnode v).type) ≠ some .directory then (ebadf, s)
      else
        if (s.filp n).pos.toNat / 2 ^ 32 ≠ 0 then (eio, s.panic .getdentsOffset)
        else (reply.1, if 0 < reply.1 then s.setFilp n { s.filp n with pos := reply.2.setWidth 64 } else s)

/-- The start of a seek. -/
def seekBase (s : State) (n : FilpNr) : Whence → Option (BitVec 64)
  | .set => some 0#64
  | .cur => some (s.filp n).pos
  | .fromEnd => some (BitVec.ofInt 64 (u32 (((s.filp n).vnode.map fun v => (s.vnode v).size).getD 0)))
  | .other => none

/-- The part of a seek that the two calls share; `ok` is the answer to REQ_INHIBREAD. -/
def seekTo (s : State) (n : FilpNr) (newpos : BitVec 64) (inhibread : Int) : Int × State :=
  if newpos ≠ (s.filp n).pos ∧ inhibread ≠ 0 then (inhibread, s)
  else (0, s.setFilp n { s.filp n with pos := newpos })

/-- `do_lseek()` -/
def doLseek (s : State) (p : ProcNr) (fd : Int) (offset : BitVec 32) (whence : Whence) (inhibread : Int) : Int × State :=
  match s.getFilp p fd with
  | .error r => (r, s)
  | .ok (_, n) =>
      if ((s.filp n).vnode.map fun v => (s.vnode v).pipe) = some true then (espipe, s)
      else
        match s.seekBase n whence with
        | none => (einval, s)
        | some pos =>
            let newpos := pos + offset.signExtend 64
            if newpos.toNat / 2 ^ 32 ≠ 0 then (einval, s) else s.seekTo n newpos inhibread

/-- `do_llseek()` -/
def doLlseek (s : State) (p : ProcNr) (fd : Int) (offset : BitVec 64) (whence : Whence) (inhibread : Int) : Int × State :=
  match s.getFilp p fd with
  | .error r => (r, s)
  | .ok (_, n) =>
      if ((s.filp n).vnode.map fun v => (s.vnode v).pipe) = some true then (espipe, s)
      else
        match s.seekBase n whence with
        | none => (einval, s)
        | some pos =>
            let newpos := pos + offset
            let high : BitVec 32 := offset.extractLsb' 32 32
            if (0 < high.toInt ∧ newpos.toNat < pos.toNat) ∨ (high.toInt < 0 ∧ pos.toNat < newpos.toNat) then (einval, s)
            else s.seekTo n newpos inhibread

/-! ## The other calls -/

/-- `lock_op` with what it does to waiting processes; `none` is SUSPEND. -/
def doLock (s : State) (p : ProcNr) (fd : Int) (n : FilpNr) (cmd : LockCmd) (k : Flock) : Option Int × State :=
  let f := s.filp n
  let x := f.vnode.map s.vnode
  let rq : LockRequest := {
    cmd := cmd, pid := (s.proc p).pid, copied := k.copied, type := k.type, whence := k.whence
    start := k.start, len := k.len, readable := f.readable, writable := f.writable
    posHi := f.pos.extractLsb' 32 32, posLo := f.pos.setWidth 32
    vnode := (f.vnode.map Fin.val).getD 0, regular := decide (x.map Vnode.type = some .regular)
    size := BitVec.ofInt 32 ((x.map Vnode.size).getD 0) }
  let (r, locks) := lockOp s.locks rq
  let s1 := { s with locks := locks }
  match r with
  | .ok => (some 0, if unlocking s.locks rq then s1.lockRevive else s1)
  | .einval => (some einval, s1)
  | .ebadf => (some ebadf, s1)
  | .eagain => (some eagain, s1)
  | .enolck => (some enolck, s1)
  | .suspend => (none, s1.suspend p .lock ⟨fd, .fcntl, 0, 0⟩)
  | .panic => (some einval, s1.panic .lockPos)

/-- `do_fcntl()` for F_FREESP; `copied` and `reply` are the results of the copy and of
REQ_FTRUNC. -/
def doFreesp (s : State) (n : FilpNr) (k : Flock) (copied reply : Int) : Int × State :=
  let f := s.filp n
  let x := f.vnode.map s.vnode
  if x.map Vnode.type ≠ some .regular then (einval, s)
  else if !f.writable then (ebadf, s)
  else if copied ≠ 0 then (copied, s)
  else
    let offset := k.start.toInt
    if k.whence = .cur ∧ f.pos.toNat / 2 ^ 32 ≠ 0 then (eio, s.panic .freespPos)
    else
      let base : Option Int :=
        match k.whence with
        | .set => if offset < 0 then none else some 0
        | .cur => some (i32 f.pos.toNat)
        | .fromEnd => some ((x.map Vnode.size).getD 0)
        | .other => none
      match base with
      | none => (einval, s)
      | some start =>
          if (0 < offset ∧ i32 (start + offset) < start) ∨ (offset < 0 ∧ start < i32 (start + offset)) then (einval, s)
          else
            let start1 := i32 (start + offset)
            if 0 < k.len.toInt ∧ i32 (start1 + k.len.toInt) ≤ start1 then (einval, s) else (reply, s)

/-- F_DUPFD of `do_fcntl()`. -/
def doDupfd (s : State) (p : ProcNr) (n : FilpNr) (start : Int) : Int × State :=
  if start < 0 ∨ openMax ≤ start then (einval, s)
  else
    match s.getFd p start.toNat false false with
    | .error r => (r, s)
    | .ok (fd, _, s1) =>
        let s2 := s1.setCount n ((s1.filp n).count + 1)
        (fd.val, s2.setFd p fd (some n) ((s2.proc p).inuse fd))

/-- `do_dup()`: dup2 if there is a second descriptor. -/
def doDup (s : State) (p : ProcNr) (fd : Int) (fd2 : Option Int) (truncated : Bool) : Int × State :=
  match s.getFilp p fd with
  | .error r => (r, s)
  | .ok (_, n) =>
      match fd2 with
      | none =>
          match s.getFd p 0 false false with
          | .error r => (r, s)
          | .ok (k, _, s1) =>
              let s2 := s1.setCount n ((s1.filp n).count + 1)
              (k.val, s2.setFd p k (some n) true)
      | some m =>
          match fdOf m with
          | none => (ebadf, s)
          | some k =>
              if fd = m then (m, s)
              else
                let s1 := (s.closeFd p m truncated).2
                let s2 := s1.setCount n ((s1.filp n).count + 1)
                (m, s2.setFd p k (some n) true)

/-- F_SETFL of `do_fcntl()`. -/
def doSetfl (s : State) (n : FilpNr) (nonblock append reopen : Bool) : State :=
  s.setFilp n { s.filp n with nonblock := nonblock, append := append, reopen := reopen }

/-- `do_ftruncate()` -/
def doFtruncate (s : State) (p : ProcNr) (fd : Int) (length : BitVec 32) (ok : Bool) : Int × State :=
  match s.getFilp p fd with
  | .error r => (r, s)
  | .ok (_, n) =>
      if !(s.filp n).writable then (ebadf, s)
      else
        match (s.filp n).vnode with
        | none => (eio, s)
        | some v => s.truncateVnode v length.toInt ok

/-- `do_truncate()` for what is found at the path; `access` is the result of `forbidden`. -/
def doTruncate (s : State) (found : Found) (access : Int) (length : BitVec 32) (ok : Bool) : Int × State :=
  match found with
  | .error r => (r, s)
  | .node info _ =>
      match s.getVnode info with
      | .error r => (r, s)
      | .ok (v, s1) =>
          let (r, s2) := if access = 0 then s1.truncateVnode v length.toInt ok else (access, s1)
          (r, s2.putVnode v)

/-- `do_ioctl()`; `none` is SUSPEND. -/
def doIoctl (s : State) (p : ProcNr) (fd request : Int) (a : DevReply) : Option Int × State :=
  match s.getFilp p fd with
  | .error r => (some r, s)
  | .ok (_, n) =>
      match (s.filp n).vnode with
      | none => (some eio, s)
      | some v =>
          let x := s.vnode v
          if x.type ≠ .charSpecial ∧ x.type ≠ .blockSpecial then (some enotty, s)
          else
            s.devIo p x.sdev (s.filp n).nonblock (isAsync x.sdev) (s.filp n).needsReopen ⟨fd, .ioctl, 0, request⟩ a

/-! ## Select -/

/-- The part of `select_request_pipe` for reading. -/
def pipeReadable (s : State) (n : FilpNr) (v : VnodeNr) (ops : SelOps) (pos : Int) : SelOps × State :=
  if ops.rd || ops.err then
    match s.pipeCheck v .reading false 1 pos true with
    | (none, s1) => (⟨(s.filp n).writable, false, false⟩, s1)
    | (some e, s1) => (⟨true, false, e < 0⟩, s1)
  else (.empty, s)

/-- The part of `select_request_pipe` for writing, after that for reading. -/
def pipeWritable (s : State) (n : FilpNr) (v : VnodeNr) (ops : SelOps) (pos : Int) (r : SelOps) : SelOps × State :=
  if ops.wr || ops.err then
    match s.pipeCheck v .writing false 1 pos true with
    | (none, s1) => (if (s.filp n).readable then ⟨r.rd, true, false⟩ else r, s1)
    | (some e, s1) => (r.union ⟨false, true, e < 0⟩, s1)
  else (r, s)

/-- `select_request_pipe(f, ops, block)`: the operations that are ready. -/
def selectRequestPipe (s : State) (n : FilpNr) (v : VnodeNr) (ops : SelOps) (block : Bool) : SelOps × State :=
  let pos := i32 (s.filp n).pos.toNat
  if (s.filp n).pos.toNat / 2 ^ 32 ≠ 0 then (.empty, s.panic .pipePosTooLarge)
  else
    let (r1, s1) := s.pipeReadable n v ops pos
    let (r2, s2) := s1.pipeWritable n v ops pos r1
    let ready := r2.inter ops
    (ready,
      if ready = .empty ∧ block then s2.setFilp n { s2.filp n with pipeSelectOps := (s2.filp n).pipeSelectOps.union ops }
      else s2)

/-- How the operations of a descriptor are looked at. -/
inductive FdType where
  | file
  | general
  | asynch (major : Major)
  | pipe (v : VnodeNr)
  deriving DecidableEq, Repr

/-- The type of the descriptor, by `fdtypes`. -/
def fdType (s : State) (n : FilpNr) : Option FdType :=
  match (s.filp n).vnode with
  | none => none
  | some v =>
      match (s.vnode v).type with
      | .regular | .symlink => some .file
      | .fifo => some (.pipe v)
      | .charSpecial =>
          match (s.vnode v).sdev with
          | none => none
          | some (major, _) =>
              if major.val = 4 ∨ major.val = 7 then some .general
              else if major.val = 15 then some (.asynch major)
              else none
      | .directory | .blockSpecial => none

/-- The result of the request of a select. -/
inductive SelAnswer where
  | ready (ops : SelOps)
  | deferred
  | error
  deriving DecidableEq, Repr

/-- `select_request_asynch(f, ops, block)`: the driver is asked if it is not busy with another
request. -/
def selectRequestAsynch (s : State) (n : FilpNr) (major : Major) (block : Bool) : SelAnswer × State :=
  let s1 := s.setFilp n { s.filp n with selUpdate := true, selBlock := (s.filp n).selBlock || block }
  if (s1.filp n).selBusy ∨ (s1.selFilp major).isSome then (.deferred, s1)
  else
    let s2 := s1.setFilp n { s1.filp n with selUpdate := false }
    if ((s2.dmap major).bind s2.isokendpt).isNone then (.error, s2)
    else
      let s3 := s2.setFilp n { s2.filp n with count := (s2.filp n).count + 1, selBusy := true }
      (.deferred, { s3 with selFilp := update s3.selFilp major (some n) })

/-- The request of a select. -/
def selectRequest (s : State) (n : FilpNr) (type : FdType) (ops : SelOps) (block : Bool) (answer : Option SelOps) :
    SelAnswer × State :=
  match type with
  | .file => (.ready ops, s)
  | .general =>
      match answer with
      | none => (.error, s)
      | some ready => (.ready ready, s)
  | .asynch major => s.selectRequestAsynch n major block
  | .pipe v =>
      let (ready, s1) := s.selectRequestPipe n v ops block
      (.ready ready, s1)

/-- The arguments of a select, with the results of the copies and the answers of drivers. -/
structure SelectArgs where
  nfds : Int
  want : Fd → SelOps
  copied : Int
  timeout : Int
  timed : Bool
  block : Bool
  answer : Fd → Option SelOps
  copiedBack : Int

/-- A descriptor of the select is counted in its filp. -/
def countFd (s : State) (i : SelNr) (fd : Fd) (n : FilpNr) : State :=
  let s1 := s.setSel i { s.sel i with nfds := fd.val + 1 }
  s1.setFilp n { s1.filp n with selectors := (s1.filp n).selectors + 1 }

/-- One descriptor of `do_select`; an error ends the call. -/
def selectFd (s : State) (p : ProcNr) (i : SelNr) (a : SelectArgs) (fd : Fd) : Except Int Unit × State :=
  let ops := a.want fd
  if ops = .empty then (.ok (), s)
  else
    match s.getFilp p fd.val with
    | .error r =>
        if r = ebadf then (.error ebadf, s.selectCancelAll i)
        else (.ok (), s.setSel i ((s.sel i).ops2tab ⟨true, true, true⟩ fd))
    | .ok (_, n) =>
        let s1 := s.setSel i { s.sel i with filps := update (s.sel i).filps fd (some n) }
        match s1.fdType n with
        | none => (.error ebadf, s1)
        | some type =>
            if (s1.filp n).selectOps.inter ops = ops then (.ok (), s1.countFd i fd n)
            else
              let all := (s1.filp n).selectOps.union ops
              let s2 := s1.setFilp n { s1.filp n with selectOps := all }
              match s2.selectRequest n type all a.block (a.answer fd) with
              | (.error, s3) => (.error einval, s3.selectCancelAll i)
              | (.deferred, s3) => (.ok (), s3.setSel i { s3.sel i with deferred := true, deferredFd := 0 })
              | (.ready ready, s3) =>
                  (.ok (), (if ready.inter ops = .empty then s3 else s3.setSel i ((s3.sel i).ops2tab ready fd)).countFd i fd n)

/-- The loop of `do_select` over the descriptors. -/
def selectFds (p : ProcNr) (i : SelNr) (a : SelectArgs) : List Fd → State → Except Int Unit × State
  | [], s => (.ok (), s)
  | fd :: rest, s =>
      match s.selectFd p i a fd with
      | (.error r, s1) => (.error r, s1)
      | (.ok _, s1) => selectFds p i a rest s1

/-- `do_select()`; `none` is SUSPEND. -/
def doSelect (s : State) (p : ProcNr) (e : Endpoint) (a : SelectArgs) : Option Int × State :=
  if a.nfds < 0 ∨ openMax < a.nfds then (some einval, s)
  else
    match (List.finRange maxSelects).find? fun i => (s.sel i).requestor.isNone with
    | none => (some enospc, s)
    | some i =>
        let s1 := s.setSel i { s.sel i with
          endpt := e, want := a.want, ready := fun _ => .empty, filps := fun _ => none, deferred := false
          nfds := 0, nready := 0 }
        if a.copied ≠ 0 then (some a.copied, s1)
        else if a.timeout ≠ 0 then (some a.timeout, s1)
        else
          let s2 := s1.setSel i { s1.sel i with block := a.block, timer := false }
          match selectFds p i a ((List.finRange openMax).filter fun fd => fd.val < a.nfds) s2 with
          | (.error r, s3) => (some r, s3)
          | (.ok _, s3) =>
              if 0 < (s3.sel i).nready ∨ (!a.block ∧ !(s3.sel i).deferred) then
                let nready := (s3.sel i).nready
                let s4 := s3.selectCancelAll i
                (some (if a.copiedBack ≠ 0 then a.copiedBack else nready), s4.setSel i { s4.sel i with requestor := none })
              else
                let s4 := s3.setSel i { s3.sel i with timer := a.timed, requestor := some p }
                (none, s4.suspend p .select ⟨a.nfds, .select, 0, 0⟩)

/-- The driver has answered: it is not busy with the filp any more. -/
def selectAnswered (s : State) (major : Major) (n : FilpNr) (status : Option SelOps) : State :=
  let s1 := { s with selFilp := update s.selFilp major none }
  let f := s1.filp n
  let asked := if f.selUpdate || f.selBlock then f.selectOps else .empty
  let left := if f.selUpdate then asked else asked.diff (status.getD .empty)
  s1.setFilp n { f with selBusy := false, selectOps := left }

/-- `select_reply1()`.  The last step only looks for other requests to print. -/
def selectReply1 (s : State) (source : Endpoint) (minor : Nat) (status : Option SelOps) (truncated : Bool) : State :=
  match (s.driverMajor source).bind fun d => (s.selFilp d).map fun n => (d, n) with
  | none => s
  | some (major, n) =>
      if !(s.filp n).selBusy ∨ ((s.filp n).vnode.map fun v => (s.vnode v).type) ≠ some .charSpecial then
        s.panic .selectReply
      else if s.sdev n ≠ some (major, minor) then s
      else
        let s1 := s.selectAnswered major n status
        let s2 : State := if status = some .empty then s1 else s1.filpStatus n status
        if 1 < (s2.filp n).count then s2.setCount n ((s2.filp n).count - 1)
        else if (s2.filp n).count ≠ 1 then s2.panic .selectReply
        else s2.closeFilp n truncated

end State

end Minix.Vfs
