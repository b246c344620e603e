/-
  Vfs/State.lean --- the tables of the file system: `fproc.h`, `file.h`, `vnode.h`, the
  table of `select.c`, `dmap.h`, and the inodes of the pipe file system.

  The file system is one loop over messages.  Replies, writes to pipes and requests to the pipe
  file system are kept in a log, and so are the panics: a panic ends the run.
-/
import Minix.Vfs.Lock

set_option autoImplicit false

namespace Minix.Vfs

open Function

/-! ## Sizes, names and numbers -/

def nrProcs : Nat := 256

def openMax : Nat := 30

def nrFilps : Nat := 512

def nrVnodes : Nat := 512

def maxSelects : Nat := 25

def nrDevices : Nat := 32

/-- `PIPE_BUF` -/
def pipeBuf : Int := 7168

abbrev ProcNr := Fin nrProcs

abbrev Fd := Fin openMax

abbrev FilpNr := Fin nrFilps

abbrev VnodeNr := Fin nrVnodes

abbrev SelNr := Fin maxSelects

abbrev Major := Fin nrDevices

abbrev Byte := BitVec 8

/-- An endpoint: the slot of the process (negative for a task) and a generation. -/
structure Endpoint where
  nr : Int
  gen : Nat
  deriving DecidableEq, Repr

def eperm : Int := -1

def eintr : Int := -4

def eio : Int := -5

def enxio : Int := -6

def ebadf : Int := -9

def eagain : Int := -11

def efault : Int := -14

def eisdir : Int := -21

def einval : Int := -22

def enfile : Int := -23

def emfile : Int := -24

def enotty : Int := -25

def efbig : Int := -27

def enospc : Int := -28

def espipe : Int := -29

def epipe : Int := -32

def enolck : Int := -37

def erestart : Int := -41

/-- The panics and failing assertions that are looked at. -/
inductive Panic where
  | partialNotClear
  | suspNegative
  | noneRevived
  | filpCount
  | unmappedPipe
  | posTooLarge
  | badNewPos
  | sizeTooBig
  | pipePosTooLarge
  | pipePosAssert
  | getdentsOffset
  | lockPos
  | freespPos
  | filpAssert
  | selectReply
  deriving DecidableEq, Repr

/-- Which way data goes. -/
inductive Rw where
  | reading
  | writing
  deriving DecidableEq, Repr

/-- The calls that the low byte of `fp_fd` tells apart. -/
inductive CallNr where
  | read
  | write
  | openCall
  | creat
  | fcntl
  | ioctl
  | select
  deriving DecidableEq, Repr

/-- `fp_blocked_on` -/
inductive BlockedOn where
  | none
  | pipe
  | lock
  | popen
  | select
  | dopen
  | other
  deriving DecidableEq, Repr

/-- The type of a file, from `v_mode`. -/
inductive FileType where
  | regular
  | directory
  | charSpecial
  | blockSpecial
  | fifo
  | symlink
  deriving DecidableEq, Repr

/-- The file system that a vnode is of: the pipe file system, or another one. -/
inductive FsId where
  | pfs
  | other (n : Nat)
  deriving DecidableEq, Repr

/-- Operations of select: `SEL_RD`, `SEL_WR` and `SEL_ERR`. -/
structure SelOps where
  rd : Bool
  wr : Bool
  err : Bool
  deriving DecidableEq, Repr

namespace SelOps

def empty : SelOps := ⟨false, false, false⟩

def union (a b : SelOps) : SelOps := ⟨a.rd || b.rd, a.wr || b.wr, a.err || b.err⟩

def inter (a b : SelOps) : SelOps := ⟨a.rd && b.rd, a.wr && b.wr, a.err && b.err⟩

def diff (a b : SelOps) : SelOps := ⟨a.rd && !b.rd, a.wr && !b.wr, a.err && !b.err⟩

/-- How many operations there are. -/
def count (a : SelOps) : Nat := a.rd.toNat + a.wr.toNat + a.err.toNat

end SelOps

/-! ## Tables -/

/-- The call that a process is suspended in: `fp_fd`, `fp_buffer` and `fp_nbytes`. -/
structure SavedCall where
  fd : Int
  call : CallNr
  buffer : Int
  nbytes : Int
  deriving DecidableEq, Repr

/-- `struct fproc`.  A slot with `pid` 0 is free; an endpoint of `none` is NONE, a grant of
`none` is not valid. -/
@[ext]
structure Fproc where
  pid : Nat
  endpoint : Option Endpoint
  fds : Fd → Option FilpNr
  inuse : Fd → Bool
  saved : SavedCall
  cumIoPartial : Int
  revived : Bool
  task : Endpoint
  blockedOn : BlockedOn
  grant : Option Nat
  suspReopen : Bool

/-- `struct filp`.  The mode is FILP_CLOSED without `readable` and `writable`. -/
@[ext]
structure Filp where
  readable : Bool
  writable : Bool
  nonblock : Bool
  append : Bool
  reopen : Bool
  needsReopen : Bool
  count : Int
  vnode : Option VnodeNr
  pos : BitVec 64
  selectors : Int
  selectOps : SelOps
  selUpdate : Bool
  selBusy : Bool
  selBlock : Bool
  pipeSelectOps : SelOps

/-- `struct vnode`; `mapped` is the inode of the pipe file system. -/
structure Vnode where
  fs : FsId
  inode : Nat
  mapped : Option Nat
  type : FileType
  size : Int
  refCount : Int
  pipe : Bool
  rdPos : Int
  wrPos : Int
  sdev : Option (Major × Nat)

/-- An inode of the pipe file system with its buffer.  The bytes that are not in
`0 .. PIPE_BUF` are what is in memory around the buffer. -/
structure PfsInode where
  size : Int
  data : Int → Byte

/-- `struct selectentry`; the slot is free without requestor. -/
structure SelectEntry where
  requestor : Option ProcNr
  endpt : Endpoint
  want : Fd → SelOps
  ready : Fd → SelOps
  filps : Fd → Option FilpNr
  deferred : Bool
  deferredFd : Nat
  nfds : Nat
  nready : Nat
  block : Bool
  timer : Bool

/-- What goes on between the file system, the processes and the pipe file system. -/
inductive Event where
  /-- A process calls write for a pipe, with this number of bytes. -/
  | writeCall (p : ProcNr) (nbytes : Int)
  /-- A reply to a process. -/
  | reply (whom : Endpoint) (result : Int)
  /-- REQ_NEWNODE to the pipe file system. -/
  | pfsNew (ino : Nat)
  /-- REQ_READ for a vnode, with the data that has been copied to the process. -/
  | pfsRead (p : ProcNr) (v : VnodeNr) (ino : Nat) (pos nbytes : Int) (data : List Byte)
  /-- REQ_WRITE for a vnode, with the data that has been copied from the process. -/
  | pfsWrite (p : ProcNr) (v : VnodeNr) (ino : Nat) (pos nbytes : Int) (data : List Byte)
  deriving DecidableEq, Repr

@[ext]
structure State where
  proc : ProcNr → Fproc
  filp : FilpNr → Filp
  vnode : VnodeNr → Vnode
  pfs : Nat → Option PfsInode
  sel : SelNr → SelectEntry
  dmap : Major → Option Endpoint
  selFilp : Major → Option FilpNr
  locks : LockTable
  suspCount : Int
  reviving : Int
  log : List Event
  panics : List Panic

namespace State

variable (s : State)

def setProc (p : ProcNr) (f : Fproc) : State := { s with proc := update s.proc p f }

def setFilp (n : FilpNr) (f : Filp) : State := { s with filp := update s.filp n f }

/-- The count of a filp is written. -/
def setCount (n : FilpNr) (count : Int) : State := s.setFilp n { s.filp n with count := count }

/-- The vnode of a filp is written. -/
def setFile (n : FilpNr) (v : Option VnodeNr) : State := s.setFilp n { s.filp n with vnode := v }

def setVnode (v : VnodeNr) (x : Vnode) : State := { s with vnode := update s.vnode v x }

/-- The size of a vnode is written. -/
def setSize (v : VnodeNr) (size : Int) : State := s.setVnode v { s.vnode v with size := size }

def setPfs (i : Nat) (x : Option PfsInode) : State := { s with pfs := update s.pfs i x }

def setSel (i : SelNr) (e : SelectEntry) : State := { s with sel := update s.sel i e }

def setFd (p : ProcNr) (fd : Fd) (n : Option FilpNr) (inuse : Bool) : State :=
  s.setProc p { s.proc p with
    fds := update (s.proc p).fds fd n
    inuse := update (s.proc p).inuse fd inuse }

def panic (why : Panic) : State := { s with panics := why :: s.panics }

/-- `reply(whom, result)`; an error of `sendnb` is ignored. -/
def reply (whom : Endpoint) (result : Int) : State := { s with log := .reply whom result :: s.log }

theorem toNat_nr_lt {e : Endpoint} (h : 0 ≤ e.nr ∧ e.nr < nrProcs) : e.nr.toNat < nrProcs := by
  omega

/-- `isokendpt`: the slot of the process. -/
def isokendpt (e : Endpoint) : Option ProcNr :=
  if h : 0 ≤ e.nr ∧ e.nr < nrProcs then
    let p : ProcNr := ⟨e.nr.toNat, toNat_nr_lt h⟩
    if (s.proc p).endpoint = some e then some p else none
  else none

/-- A slot that is in use. -/
def live (p : ProcNr) : Bool := (s.proc p).pid ≠ 0

/-- `fp_is_blocked` -/
def blocked (p : ProcNr) : Bool := (s.proc p).blockedOn ≠ .none

end State

/-- The descriptor of that number. -/
def fdOf (n : Int) : Option Fd := if h : 0 ≤ n ∧ n < openMax then some ⟨n.toNat, by omega⟩ else none

/-- `get_filp2(rfp, fild)`: without a filp, the error. -/
def State.getFilp (s : State) (p : ProcNr) (n : Int) : Except Int (Fd × FilpNr) :=
  match fdOf n with
  | none => .error ebadf
  | some fd =>
      match (s.proc p).fds fd with
      | some f => .ok (fd, f)
      | none => .error (if (s.proc p).inuse fd then eio else ebadf)

/-- `find_filp(vp, bits)` -/
def State.findFilp (s : State) (v : VnodeNr) (rw : Rw) : Option FilpNr :=
  (List.finRange nrFilps).find? fun n =>
    decide ((s.filp n).count ≠ 0) && decide ((s.filp n).vnode = some v) &&
      (match rw with
      | .reading => (s.filp n).readable
      | .writing => (s.filp n).writable)

end Minix.Vfs
