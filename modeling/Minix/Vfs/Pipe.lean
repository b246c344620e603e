/-
  Vfs/Pipe.lean --- pipes: `pipe_check` and `rw_pipe`, with `fs_readwrite` of the pipe file
  system, and the truncation of vnodes.

  A pipe has a buffer in the pipe file system that is filled from the front and is used
  again from the front when it has been read to its end.  The positions of the readers and of the writers
  are in the vnode.
-/
import Minix.Vfs.Wait

set_option autoImplicit false

namespace Minix.Vfs

/-- The number as an `unsigned`. -/
def u32 (n : Int) : Int := n % 2 ^ 32

/-- The copy between a process and the pipe file system: whether it fails, and what is in the
memory of the process. -/
structure Copy where
  fault : Bool
  mem : Int → Byte

/-- The bytes of a buffer from a position on. -/
def slice (data : Int → Byte) (pos n : Int) : List Byte := (List.range n.toNat).map fun k => data (pos + k)

/-- The buffer with bytes stored from a position on. -/
def store (data : Int → Byte) (pos : Int) (bytes : List Byte) : Int → Byte := fun i =>
  if pos ≤ i then (bytes[(i - pos).toNat]?).getD (data i) else data i

/-- The answer of `fs_readwrite`: the result, `RES_SEEK_POS_LO` and `RES_NBYTES`. -/
structure PfsReply where
  r : Int
  pos : Int
  nbytes : Int

/-- The position of the readers or of the writers. -/
def Vnode.pipePos (x : Vnode) : Rw → Int
  | .reading => x.rdPos
  | .writing => x.wrPos

/-- What `rw_pipe` does to the vnode at the end. -/
def Vnode.moved (x : Vnode) (rw : Rw) (pos : Int) : Vnode :=
  match rw with
  | .writing => { x with size := if u32 x.size < pos then i32 pos else x.size, wrPos := i32 pos }
  | .reading => if u32 x.size ≤ pos then { x with size := 0, rdPos := 0, wrPos := 0 } else { x with rdPos := i32 pos }

namespace State

/-- `fs_readwrite` of the pipe file system. -/
def pfsReadwrite (s : State) (p : ProcNr) (v : VnodeNr) (ino : Nat) (rw : Rw) (pos n buf : Int) (c : Copy) :
    PfsReply × State :=
  match s.pfs ino with
  | none => (⟨einval, 0, 0⟩, s)
  | some x =>
      match rw with
      | .reading =>
          let data := if c.fault then [] else slice x.data pos n
          let pos1 := if c.fault then pos else i32 (pos + n)
          -- All data has been read, so the pipe starts again.
          let x1 := if x.size ≤ pos1 then { x with size := 0 } else x
          (⟨if c.fault then efault else 0, u32 pos1, if c.fault then 0 else n⟩,
            { s.setPfs ino (some x1) with log := .pfsRead p v ino pos n data :: s.log })
      | .writing =>
          if u32 (pipeBuf - n) < u32 pos then
            (⟨efbig, 0, 0⟩, { s with log := .pfsWrite p v ino pos n [] :: s.log })
          else
            let data := if c.fault then [] else slice c.mem buf n
            let pos1 := if c.fault then pos else i32 (pos + n)
            let x1 : PfsInode := ⟨if x.size < pos1 then pos1 else x.size, store x.data pos data⟩
            (⟨if c.fault then efault else 0, u32 pos1, if c.fault then 0 else n⟩,
              { s.setPfs ino (some x1) with log := .pfsWrite p v ino pos n data :: s.log })

/-- `pipe_check(vp, rw_flag, oflags, bytes, position, notouch)`; `none` is SUSPEND.  The signal
SIGPIPE is left out. -/
def pipeCheck (s : State) (v : VnodeNr) (rw : Rw) (nonblock : Bool) (bytes pos : Int) (notouch : Bool) :
    Option Int × State :=
  match rw with
  | .reading =>
      if (s.vnode v).size ≤ pos then
        if (s.findFilp v .writing).isSome then
          (if nonblock then some eagain else none,
            if 0 < s.suspCount then s.release v .write s.suspCount else s)
        else (some 0, s)
      else (some bytes, s)
  | .writing =>
      if (s.findFilp v .reading).isNone then (some epipe, s)
      else if pipeBuf < i32 (pos + bytes) then
        let avail := pipeBuf - pos
        let partialWrite : Option Int × State := (some avail, if notouch then s else s.release v .read s.suspCount)
        if nonblock then
          if bytes ≤ pipeBuf then (some eagain, s)
          else if 0 < avail then partialWrite
          else (some eagain, s)
        else if pipeBuf < bytes ∧ 0 < avail then partialWrite
        else (none, s)
      else (some bytes, if pos = 0 ∧ !notouch then s.release v .read s.suspCount else s)

/-- The request of a read or write to the pipe file system, with what it does to the
vnode. -/
def transfer (s : State) (p : ProcNr) (v : VnodeNr) (ino : Nat) (rw : Rw) (pos n buf : Int) (c : Copy) : PfsReply × State :=
  match s.pfsReadwrite p v ino rw pos n buf c with
  | (a, s1) => (a, s1.setVnode v ((s1.vnode v).moved rw (if 0 ≤ a.r then a.pos else u32 pos)))

/-- The part of `rw_pipe` from the request on. -/
def rwPipeIo (s : State) (p : ProcNr) (rw : Rw) (fd : Int) (nonblock : Bool) (v : VnodeNr) (buf req pos size : Int)
    (c : Copy) : Option Int × State :=
  match (s.vnode v).mapped with
  | none => (some eio, s.panic .unmappedPipe)
  | some ino =>
      let partialPipe : Bool := rw = .writing ∧ size < req
      match s.transfer p v ino rw pos size buf c with
      | (a, s1) =>
          let moved := if 0 ≤ a.r then a.nbytes else 0
          if a.r = 0 then
            let cum := (s1.proc p).cumIoPartial + moved
            if partialPipe ∧ !nonblock then
              let s2 := s1.setProc p { s1.proc p with cumIoPartial := cum }
              (none, s2.pipeSuspend p rw fd (buf + moved) (req - moved))
            else (some cum, s1.setProc p { s1.proc p with cumIoPartial := 0 })
          else (some a.r, s1)

/-- `rw_pipe(rw_flag, usr_e, fd_nr, f, buf, req_size)` -/
def rwPipe (s : State) (p : ProcNr) (rw : Rw) (fd : Int) (n : FilpNr) (buf req : Int) (c : Copy) :
    Option Int × State :=
  match (s.filp n).vnode with
  | none => (some eio, s)
  | some v =>
      let nonblock := (s.filp n).nonblock
      let pos := (s.vnode v).pipePos rw
      match s.pipeCheck v rw nonblock req pos false with
      | (none, s1) => (none, s1.pipeSuspend p rw fd buf req)
      | (some r, s1) =>
          if r ≤ 0 then (some r, s1)
          else if rw = .reading ∧ u32 (s1.vnode v).size < u32 pos + r then
            -- The request is cut at the size.
            if maxFilePos < u32 pos then (some eio, s1.panic .pipePosAssert)
            else s1.rwPipeIo p rw fd nonblock v buf req pos ((s1.vnode v).size - pos) c
          else s1.rwPipeIo p rw fd nonblock v buf req pos r c

/-- REQ_NEWNODE: the pipe file system takes an inode that is not in use, if it has one. -/
def pfsNewnode (s : State) (newnode : Option Nat) : Option (Nat × State) :=
  (newnode.filter fun i => (s.pfs i).isNone).map fun i =>
    (i, { s.setPfs i (some ⟨0, fun _ => 0#8⟩) with log := .pfsNew i :: s.log })

/-- `truncate_vnode(vp, newsize)`; `ok` is the answer of another file system than that of
pipes. -/
def truncateVnode (s : State) (v : VnodeNr) (newsize : Int) (ok : Bool) : Int × State :=
  let x := s.vnode v
  if x.type ≠ .regular ∧ x.type ≠ .fifo then (einval, s)
  else
    match x.fs with
    | .pfs =>
        match s.pfs x.inode with
        | none => (einval, s)
        | some y =>
            if newsize ≠ 0 then (einval, s)
            else (0, (s.setPfs x.inode (some { y with size := 0 })).setSize v newsize)
    | .other _ => if ok then (0, s.setSize v newsize) else (einval, s)

end State

end Minix.Vfs
