/-
  Vfs/Effects.lean --- what an iteration of the main loop is made of.

  Every iteration is a sequence of steps (`Op`): suspended processes are woken up
  (`Micro`), the tables of files change (`Quiet`), or one process starts or ends to wait.
  What an invariant has to say about the file system is said once for every kind of step.
-/
import Minix.Vfs.Wakes

set_option autoImplicit false

namespace Minix.Vfs

open Foundation Relation

variable {p : ProcNr} {out : Option Int × State}

/-- What a message asks for, beside the call of a process on its own files. -/
inductive Cause where
  /-- DEV_REVIVE for a process that is suspended. -/
  | named (source : Endpoint) (f : Fproc)
  /-- The driver exits. -/
  | died (driver : Endpoint)
  /-- The files of the driver have been opened again. -/
  | reopened (driver : Endpoint)
  /-- The driver of the major has been started again, and a process that waits like this has the flag
  SUSP_REOPEN. -/
  | restarted (major : Major) (why : BlockedOn) (task : Endpoint)
  /-- The process manager interrupts the process, or the process exits. -/
  | unpaused (e : Endpoint)
  /-- A seek on the filp to the position. -/
  | seeks (n : FilpNr) (pos : BitVec 64)
  /-- The truncation of a named pipe. -/
  | truncates (v : VnodeNr)

/-- Special files have positions of 64 bits. -/
def FileType.special (t : FileType) : Prop := t = .charSpecial ∨ t = .blockSpecial

namespace State

variable {s s' s'' : State} {C : Cause → Prop}

/-! ## Changes of the tables of files -/

/-- The contents of a pipe are the same, unless it is truncated, or the pipe file system does
not have the inode, or another vnode has the same one. -/
def SamePipe (C : Cause → Prop) (s s' : State) (v : VnodeNr) (i : Nat) : Prop :=
  C (.truncates v) ∨
    (((s'.vnode v).size = (s.vnode v).size ∧ (s'.vnode v).rdPos = (s.vnode v).rdPos ∧ (s'.vnode v).wrPos = (s.vnode v).wrPos) ∧
      (s'.pfs i = s.pfs i ∨ ((s.vnode v).size = 0 ∧ s'.pfs i = (s.pfs i).map fun x => { x with size := 0 }) ∨
        s.pfs i = none ∨ ∃ w, w ≠ v ∧ 0 < (s.vnode w).refCount ∧ (s.vnode w).Uses i))

/-- If the vnode is a pipe, it has been that pipe before. -/
def KeptPipe (C : Cause → Prop) (s s' : State) (v : VnodeNr) : Prop :=
  ∀ i, 0 < (s'.vnode v).refCount → (s'.vnode v).Uses i →
    0 < (s.vnode v).refCount ∧ (s.vnode v).Uses i ∧ s.SamePipe C s' v i

/-- The vnode becomes an empty pipe. -/
structure NewPipe (s s' : State) (v : VnodeNr) (i : Nat) : Prop where
  free : (s.vnode v).refCount = 0
  uses : ∀ j, (s'.vnode v).Uses j → j = i
  empty : (s'.vnode v).size = 0 ∧ (s'.vnode v).rdPos = 0 ∧ (s'.vnode v).wrPos = 0
  pfs : s.pfs i = none ∧ s'.pfs i = some ⟨0, fun _ => 0#8⟩
  log : s'.log = .pfsNew i :: s.log

/-- Files are opened and closed, and their positions and sizes change; no process starts or
ends to wait. -/
structure Quiet (C : Cause → Prop) (s s' : State) : Prop where
  proc : ∀ p, ∃ fds inuse, s'.proc p = { s.proc p with fds := fds, inuse := inuse }
  sel : s'.sel = s.sel
  counters : s'.suspCount = s.suspCount ∧ s'.reviving = s.reviving
  panics : s'.panics = s.panics
  locks : ReflTransGen LockStep s.locks s'.locks
  pos : ∀ n v, 0 < (s'.filp n).count → (s'.filp n).vnode = some v →
    (0 < (s.filp n).count ∧ (s.filp n).vnode = some v ∧ (s'.filp n).pos = (s.filp n).pos) ∨ (s'.filp n).pos.toNat < 2 ^ 32 ∨
      (s'.vnode v).type.special ∨ C (.seeks n (s'.filp n).pos)
  type : ∀ v, 0 < (s.vnode v).refCount → 0 < (s'.vnode v).refCount → (s'.vnode v).type = (s.vnode v).type
  log : s'.log = s.log ∨ ∃ i, s.pfs i = none ∧ s'.log = .pfsNew i :: s.log
  pipes : (∀ v, s.KeptPipe C s' v) ∨ ∃ v i, s.NewPipe s' v i ∧ ∀ w, w ≠ v → s.KeptPipe C s' w

/-- The vnode is the same, and only inodes that the pipe file system does not have are made. -/
theorem KeptPipe.of_eq {v : VnodeNr} (hvnode : s'.vnode v = s.vnode v) (hpfs : ∀ i, s'.pfs i = s.pfs i ∨ s.pfs i = none) :
    s.KeptPipe C s' v := by
  intro i hcount huses
  rw [hvnode] at hcount huses
  exact ⟨hcount, huses, .inr ⟨by simp [hvnode], (hpfs i).imp_right fun hnone => .inr (.inl hnone)⟩⟩

/-- Only filps and descriptors change. -/
theorem Quiet.of_filps (hproc : ∀ p, ∃ fds inuse, s'.proc p = { s.proc p with fds := fds, inuse := inuse })
    (hrest : s'.sel = s.sel ∧ s'.suspCount = s.suspCount ∧ s'.reviving = s.reviving ∧ s'.panics = s.panics ∧
      s'.vnode = s.vnode ∧ s'.log = s.log ∧ s'.pfs = s.pfs ∧ ReflTransGen LockStep s.locks s'.locks)
    (hpos : ∀ n v, 0 < (s'.filp n).count → (s'.filp n).vnode = some v →
      (0 < (s.filp n).count ∧ (s.filp n).vnode = some v ∧ (s'.filp n).pos = (s.filp n).pos) ∨
        (s'.filp n).pos.toNat < 2 ^ 32 ∨ (s.vnode v).type.special ∨ C (.seeks n (s'.filp n).pos)) : Quiet C s s' := by
  obtain ⟨hsel, hsusp, hrev, hpanics, hvnode, hlog, hpfs, hlocks⟩ := hrest
  refine ⟨hproc, hsel, ⟨hsusp, hrev⟩, hpanics, hlocks, fun n v hn hv => ?_, fun v _ _ => by rw [hvnode], .inl hlog,
    .inl fun v => .of_eq (by rw [hvnode]) fun _ => .inl (by rw [hpfs])⟩
  rw [hvnode]
  exact hpos n v hn hv

/-! ## Steps -/

/-- A process that makes a call. -/
def Idle (s : State) (p : ProcNr) : Prop := s.live p = true ∧ (s.proc p).blockedOn = .none

/-- When a panic is reached. -/
def Reason (s : State) : Panic → Prop
  | .partialNotClear => ∃ p, s.Idle p ∧ (s.proc p).cumIoPartial ≠ 0
  | .noneRevived => s.reviving ≠ 0 ∧ ∀ p, s.live p = true → (s.proc p).revived = false
  | .posTooLarge | .getdentsOffset | .lockPos | .freespPos | .pipePosTooLarge =>
      ∃ n v, 0 < (s.filp n).count ∧ (s.filp n).vnode = some v ∧ ¬ (s.vnode v).type.special ∧ 2 ^ 32 ≤ (s.filp n).pos.toNat
  | .pipePosAssert => ∃ v, 0 < (s.vnode v).refCount ∧ (s.vnode v).mapped.isSome = true ∧ maxFilePos < u32 (s.vnode v).rdPos
  | .selectReply => True
  | .suspNegative | .filpCount | .unmappedPipe | .badNewPos | .sizeTooBig | .filpAssert => False

/-- One step. -/
inductive Op (C : Cause → Prop) (s : State) : State → Prop
  | micro {s' : State} (h : Micro (fun e => C (.died e)) s s') : Op C s s'
  | quiet {s' : State} (h : Quiet C s s') : Op C s s'
  | reply (p : ProcNr) (e : Endpoint) (r : Int) (hend : (s.proc p).endpoint = some e) (hidle : (s.proc p).blockedOn = .none) :
      Op C s (s.reply e r)
  | writeCall (p : ProcNr) (n : Int) (hidle : s.Idle p) : Op C s { s with log := .writeCall p n :: s.log }
  | panic (why : Panic) (hwhy : s.Reason why) : Op C s (s.panic why)
  /-- A process waits for a lock or for a driver. -/
  | wait (p : ProcNr) (f : Fproc) (hidle : s.Idle p)
      (hwhy : f.blockedOn = .lock ∨ f.blockedOn = .dopen ∨ f.blockedOn = .other)
      (hf : f = { s.proc p with
        blockedOn := f.blockedOn, saved := f.saved, task := f.task, grant := f.grant, suspReopen := f.suspReopen }) :
      Op C s (s.setProc p f)
  | waitOpen (p : ProcNr) (saved : SavedCall) (hidle : s.Idle p) : Op C s (s.suspend p .popen saved)
  | waitPipe (p : ProcNr) (rw : Rw) (fd buf size : Int) (hidle : s.Idle p) : Op C s (s.pipeSuspend p rw fd buf size)
  /-- A free slot of select is written. -/
  | slot (i : SelNr) (e : SelectEntry) (hfree : (s.sel i).requestor = none) (hreq : e.requestor = none) : Op C s (s.setSel i e)
  | waitSelect (p : ProcNr) (i : SelNr) (e : SelectEntry) (saved : SavedCall) (hidle : s.Idle p)
      (hfree : (s.sel i).requestor = none) (hreq : e.requestor = some p) (hend : (s.proc p).endpoint = some e.endpt) :
      Op C s ((s.setSel i e).suspend p .select saved)
  | named (source : Endpoint) (p : ProcNr) (e : Endpoint) (r : Int) (hend : (s.proc p).endpoint = some e)
      (hblocked : (s.proc p).blockedOn ≠ .none) (hrev : (s.proc p).revived = false) (hC : C (.named source (s.proc p))) :
      Op C s (s.revive e r)
  | unpause (e : Endpoint) (cancel : Option Int) (hC : C (.unpaused e)) : Op C s (s.unpause e cancel)
  | restartOne (driver : Endpoint) (p : ProcNr) (hwait : s.live p = true ∧ (s.proc p).blockedOn = .other ∧
      (s.proc p).task = driver ∧ (s.proc p).suspReopen = true) (hC : C (.reopened driver)) : Op C s (s.restartOne driver p)
  | restartOpen (major : Major) (p : ProcNr) (hlive : s.live p = true) (hwait : (s.proc p).blockedOn ≠ .dopen)
      (hflag : (s.proc p).suspReopen = true) (hC : C (.restarted major (s.proc p).blockedOn (s.proc p).task)) :
      Op C s (s.restartOpen major p)
  | flag (P : ProcNr → Prop) [DecidablePred P] (hP : ∀ p, P p → s.live p = true ∧ (s.proc p).blockedOn = .dopen) :
      Op C s { s with proc := fun p => if P p then { s.proc p with suspReopen := true } else s.proc p }
  | fork (parent child : Endpoint) (pid : Nat) (hsend : (Message.pmFork parent child pid).Sendable s) :
      Op C s (s.pmFork parent child pid)
  | exit (p : ProcNr) (e : Endpoint) (hend : (s.proc p).endpoint = some e) (hC : C (.unpaused e))
      (hidle : (s.proc p).blockedOn = .none ∨ (s.proc p).blockedOn = .dopen ∨ (s.proc p).blockedOn = .other) :
      Op C s (s.setProc p { s.proc p with endpoint := none, pid := 0 })
  | take (p : ProcNr) (hlive : s.live p = true) (hrev : (s.proc p).revived = true) : Op C s (s.take p)
  | transfer (p : ProcNr) (n : FilpNr) (v : VnodeNr) (ino : Nat) (rw : Rw) (pos k buf : Int) (c : Copy) (hidle : s.Idle p)
      (hn : 0 < (s.filp n).count ∧ (s.filp n).vnode = some v) (hv : (s.vnode v).mapped = some ino)
      (hpos : pos = (s.vnode v).pipePos rw) : Op C s (s.transfer p v ino rw pos k buf c).2
  | partly (p : ProcNr) (n : Int) (hidle : s.Idle p) : Op C s (s.setProc p { s.proc p with cumIoPartial := n })

/-- Steps in all of which it is known who refers to what. -/
def Steps (C : Cause → Prop) : State → State → Prop := ReflTransGen fun s s' => Op C s s' ∧ s'.Refs

namespace Steps

theorem refl (s : State) : Steps C s s := ReflTransGen.refl

theorem trans (h : Steps C s s') (h' : Steps C s' s'') : Steps C s s'' := ReflTransGen.trans h h'

theorem single (h : Op C s s') (hrefs : s'.Refs) : Steps C s s' := ReflTransGen.single ⟨h, hrefs⟩

theorem refs (h : Steps C s s') (hrefs : s.Refs) : s'.Refs := by
  induction h with
  | refl => exact hrefs
  | tail _ hstep => exact hstep.2

end Steps

theorem Refs.steps_of_wakes (h : s.Refs) {D : Endpoint → Prop} (hD : ∀ e, D e → C (.died e)) (hrun : Wakes D s s') :
    Steps C s s' := by
  induction hrun with
  | refl => exact .refl s
  | tail hrun hstep ih =>
    refine ih.trans (.single (.micro ?_) (h.wakes (hrun.tail hstep)).1)
    cases hstep with
    | sel i e hreq hend => exact .sel _ i e hreq hend
    | filp n f hf => exact .filp _ n f hf
    | wakeup i r hreq hr => exact .wakeup _ i r hreq (hr.imp id fun ⟨e, he⟩ => ⟨e, hD e he⟩)
    | release v call p hrel hv hcall => exact .release _ v call p hrel hv hcall
    | unlock p e hb hend => exact .unlock _ p e hb hend
    | undriver p e r hb hend hd => exact .undriver _ p e r hb hend (hD _ hd)

/-- The steps of a call of a process.  When the call is done, the process can be
answered. -/
structure CallSteps (C : Cause → Prop) (s : State) (p : ProcNr) (out : Option Int × State) : Prop where
  steps : Steps C s out.2
  idle : out.1.isSome = true → out.2.Idle p
  endpoint : (out.2.proc p).endpoint = (s.proc p).endpoint

theorem CallSteps.done {r : Option Int} (h : Steps C s s') (hidle : s'.Idle p)
    (hend : (s'.proc p).endpoint = (s.proc p).endpoint) : CallSteps C s p (r, s') :=
  ⟨h, fun _ => hidle, hend⟩

theorem CallSteps.suspended (h : Steps C s s') (hend : (s'.proc p).endpoint = (s.proc p).endpoint) :
    CallSteps C s p (none, s') :=
  ⟨h, fun hsome => absurd hsome (by simp), hend⟩

/-- The process has other descriptors at most. -/
theorem CallSteps.moved {r : Option Int} (hp : s.Idle p) (h : Steps C s s')
    (hproc : ∃ fds inuse, s'.proc p = { s.proc p with fds := fds, inuse := inuse }) : CallSteps C s p (r, s') := by
  obtain ⟨fds, inuse, hproc⟩ := hproc
  refine .done h ?_ (by rw [hproc])
  unfold Idle live
  rw [hproc]
  exact hp

theorem CallSteps.same {r : Option Int} (hp : s.Idle p) (h : Steps C s s') (hproc : s'.proc p = s.proc p) :
    CallSteps C s p (r, s') :=
  .moved hp h ⟨_, _, hproc⟩

theorem CallSteps.refl (hp : s.Idle p) {r : Option Int} : CallSteps C s p (r, s) :=
  ⟨.refl s, fun _ => hp, rfl⟩

/-- The steps of a call go on with those of another one. -/
theorem CallSteps.of_steps (h : Steps C s s') (hend : (s'.proc p).endpoint = (s.proc p).endpoint)
    (h' : CallSteps C s' p out) : CallSteps C s p out :=
  ⟨h.trans h'.steps, h'.idle, h'.endpoint.trans hend⟩

theorem CallSteps.answer {e : Endpoint} (h : CallSteps C s p out) (hrefs : s.Refs)
    (hend : (s.proc p).endpoint = some e) : Steps C s (State.answer e out) := by
  obtain ⟨r, t⟩ := out
  rcases r with _ | r
  · exact h.steps
  · exact h.steps.trans (.single (.reply p e r (h.endpoint.trans hend) (h.idle rfl).2) ((h.steps.refs hrefs).reply e r))

end State

end Minix.Vfs
