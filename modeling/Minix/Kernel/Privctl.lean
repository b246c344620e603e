/-
  Kernel/Privctl.lean --- privilege structures: their allocation, the send masks, and
  the kernel call `do_privctl`.

  A system process has a privilege structure of its own; the unprivileged processes
  share the structure `USER_PRIV_ID`.  Structures are named by their index, the
  privilege id: the first fifteen ids are handed out by name, the others to whoever
  asks next.  `s_proc_nr` of a structure names its process, and is `NONE` while the
  structure is free.

  `SYS_PRIV_SET_SYS` allocates a structure first and fills it in afterwards, from the
  structure of the caller, from defaults and from what the caller supplies; an error
  on the way returns at once.
-/
import Minix.Kernel.System

set_option autoImplicit false

namespace Minix.Kernel

open Minix.Foundation

/-! ## Requests -/

/-- `NR_STATIC_PRIV_IDS`, the number of processes in the boot image. -/
def nrStaticPrivIds : Nat := 15

/-- `NR_IO_RANGE`, `NR_MEM_RANGE` and `NR_IRQ` -/
def nrIoRange : Nat := 32
def nrMemRange : Nat := 10
def nrIrq : Nat := 4

/-- `DEF_SYS_F`, `DEF_SYS_T` and `DEF_SYS_M`, the defaults of a system process. -/
def defSysF : BitVec 16 := sysProc ||| preemptible ||| dynPrivId
def defSysT : BitVec 16 := 0xffff
def defSysM : BitVec 32 := ~~~(1#32 <<< userPrivId.val)

/-- The fields of a supplied `struct priv` that `do_privctl` reads. -/
structure SuppliedPriv where
  sId : Int
  sFlags : BitVec 16
  sTrapMask : BitVec 16
  sIpcTo : BitVec 32
  sKCallMask : BitVec 64
  sNrIrq : Int
  sIrqTab : List Int
  sNrIoRange : Int
  sIoTab : List Range
  sNrMemRange : Int
  sMemTab : List Range
  deriving DecidableEq, Repr

/-- Data at an address of the caller, and how a copy from there ends. -/
structure Argument (α : Type) where
  access : Access
  value : α

/-- `CTL_REQUEST` with its arguments.  What `SYS_PRIV_ADD_IO` and `SYS_PRIV_ADD_IRQ` use
is what the kernel's variable holds after a copy whose result nobody looks at. -/
inductive PrivRequest where
  | allow
  | disallow
  | setSys (arg : Option (Argument SuppliedPriv))
  | setUser
  | addIo (arg : Argument Range)
  | addMem (arg : Argument Range)
  | addIrq (arg : Argument Int)
  | queryMem (physStart physLen : Nat)
  | other

/-- `ipc_to_m & (1 << i)` -/
def allowsTarget (mask : BitVec 32) (id : Fin nrSysProcs) : Bool := mask.getLsbD id.val

/-- `s_trap_mask & ~(1 << RECEIVE)`: the process can do more than receive. -/
def Priv.sends (sp : Priv) : Bool := clearBits sp.sTrapMask 0x4#16 != 0#16

/-- `set_sys_bit(sp->s_ipc_to, id)` -/
def Priv.setTarget (id : Fin nrSysProcs) (sp : Priv) : Priv :=
  { sp with sIpcTo := sp.sIpcTo ||| 1#32 <<< id.val }

/-- `unset_sys_bit(sp->s_ipc_to, id)` -/
def Priv.unsetTarget (id : Fin nrSysProcs) (sp : Priv) : Priv :=
  { sp with sIpcTo := sp.sIpcTo &&& ~~~(1#32 <<< id.val) }

/-- The first `n` elements of the supplied table replace those of the old one, unless
`n` is out of range. -/
def copyTable {α : Type} (limit : Nat) (n : Int) (supplied old : List α) : Option (List α) :=
  if n < 0 ∨ (limit : Int) < n then none
  else some (supplied.take n.toNat ++ old.drop n.toNat)

/-! The three tables of a supplied structure.  An error carries the structure as it is
when `do_privctl` returns. -/

def Priv.copyIrqs (arg : SuppliedPriv) (sp : Priv) : Except Priv Priv :=
  if isSet arg.sFlags checkIrq then
    match copyTable nrIrq arg.sNrIrq arg.sIrqTab sp.sRes.sIrqTab with
    | none => .error sp
    | some tab => .ok { sp with sRes := { sp.sRes with sNrIrq := arg.sNrIrq, sIrqTab := tab } }
  else .ok sp

def Priv.copyIoRanges (arg : SuppliedPriv) (sp : Priv) : Except Priv Priv :=
  if isSet arg.sFlags checkIoPort then
    match copyTable nrIoRange arg.sNrIoRange arg.sIoTab sp.sRes.sIoTab with
    | none => .error sp
    | some tab =>
        .ok { sp with sRes := { sp.sRes with sNrIoRange := arg.sNrIoRange, sIoTab := tab } }
  else .ok sp

def Priv.copyMemRanges (arg : SuppliedPriv) (sp : Priv) : Except Priv Priv :=
  if isSet arg.sFlags checkMem then
    match copyTable nrMemRange arg.sNrMemRange arg.sMemTab sp.sRes.sMemTab with
    | none => .error sp
    | some tab =>
        .ok { sp with sRes := { sp.sRes with sNrMemRange := arg.sNrMemRange, sMemTab := tab } }
  else .ok sp

/-- The supplied structure overrides the defaults. -/
def Priv.override (arg : SuppliedPriv) (sp : Priv) : Except Priv Priv := do
  let sp ← Priv.copyIrqs arg { sp with sFlags := arg.sFlags }
  let sp ← Priv.copyIoRanges arg sp
  let sp ← Priv.copyMemRanges arg sp
  return { sp with
    sTrapMask := arg.sTrapMask
    sRes := { sp.sRes with sKCallMask := arg.sKCallMask } }

/-- The structure with id `id` of process `n`: a copy of the caller's, without what was
pending there and with the defaults of a system process. -/
def Priv.inherit (caller : Priv) (id : Fin nrSysProcs) (n : Int) : Priv :=
  { caller with
    sId := id
    sProcNr := n
    sNotifyPending := 0
    sIntPending := 0
    sSigPending := 0
    sAsyntab := 0xffffffff
    sAsynsize := 0
    sFlags := defSysF
    sTrapMask := defSysT
    sRes := { caller.sRes with
      sKCallMask := BitVec.allOnes 64
      sNrIoRange := 0
      sNrMemRange := 0
      sNrIrq := 0
      sGrantTable := 0
      sGrantEntries := 0 } }

namespace State

/-! ## Allocation -/

/-- `rc->p_priv = sp; rc->p_priv->s_proc_nr = proc_nr(rc)` -/
def assignPriv (s : State) (rc : Slot) (id : Fin nrSysProcs) : State :=
  (s.modProc rc fun p => { p with pPriv := some id }).modPriv (some id) fun sp =>
    { sp with sProcNr := procNr rc }

/-- The structures from `BEG_DYN_PRIV_ADDR` on. -/
def dynPrivIds : List (Fin nrSysProcs) :=
  (List.finRange nrSysProcs).filter fun id => decide (nrStaticPrivIds ≤ id.val)

/-- `priv_addr(id)` for a static id. -/
def staticPriv (privId : Int) : Option (Fin nrSysProcs) :=
  if h : 0 ≤ privId ∧ privId < 15 then
    some ⟨privId.toNat, by unfold nrSysProcs; omega⟩
  else none

/-- `get_priv(rc, priv_id)`; `none` is `NULL_PRIV_ID`. -/
def getPriv (s : State) (rc : Slot) : Option Int → Int × State
  | none =>
      match dynPrivIds.find? fun id => (s.priv (some id)).sProcNr == endptNone with
      | none => (enospc, s)
      | some id => (ok, s.assignPriv rc id)
  | some privId =>
      match staticPriv privId with
      | none => (einval, s)
      | some id =>
          if (s.priv (some id)).sProcNr ≠ endptNone then (ebusy, s) else (ok, s.assignPriv rc id)

/-! ## Send masks -/

/-- `set_sendto_bit(rp, id)` -/
def setSendtoBit (s : State) (rp : Slot) (id : Fin nrSysProcs) : State :=
  if (s.priv (some id)).sProcNr = endptNone ∨ (s.privOf rp).sId = id then
    s.modPriv (s.proc rp).pPriv (Priv.unsetTarget id)
  else
    let s1 := s.modPriv (s.proc rp).pPriv (Priv.setTarget id)
    if (s1.priv (some id)).sends then
      s1.modPriv (some id) (Priv.setTarget (s1.privOf rp).sId)
    else s1

/-- `unset_sendto_bit(rp, id)` -/
def unsetSendtoBit (s : State) (rp : Slot) (id : Fin nrSysProcs) : State :=
  let s1 := s.modPriv (s.proc rp).pPriv (Priv.unsetTarget id)
  s1.modPriv (some id) (Priv.unsetTarget (s1.privOf rp).sId)

/-- The loop that fills in the target mask. -/
def fillTargets (s : State) (rp : Slot) (mask : BitVec 32) : List (Fin nrSysProcs) → State
  | [] => s
  | id :: ids =>
      (if allowsTarget mask id then s.setSendtoBit rp id else s.unsetSendtoBit rp id).fillTargets
        rp mask ids

/-! ## The kernel call -/

/-- `data_copy` from the caller of a kernel call into a variable of the kernel. -/
def copyIn (s : State) (access : Access) : Bool × State :=
  s.dataCopy (fun _ _ _ => access) s.whoP 0 .getMsg

/-- What `data_copy` returns when the copy fails. -/
def copyInError (s : State) (access : Access) : Int :=
  if s.isokendpt (s.proc s.whoP).pEndpoint = none then edeadsrcdst
  else if access = .unmapped then efault
  else if s.rtsIsset s.whoP rtsVmrequest ∧ (s.proc s.whoP).vmResult ≠ ok then
    (s.proc s.whoP).vmResult
  else efaultSrc

/-- `SYS_PRIV_SET_SYS` after the supplied structure is copied in. -/
def allocateSys (s : State) (rp : Slot) (arg : Option SuppliedPriv) : Int × State :=
  let privId := arg.bind fun p => if isSet p.sFlags dynPrivId then none else some p.sId
  let got := s.getPriv rp privId
  if got.1 ≠ ok then got
  else
    let s1 := got.2
    let s2 := s1.modPriv (s1.proc rp).pPriv fun sp =>
      (s1.privOf s1.whoP).inherit sp.sId (procNr rp)
    match arg with
    | none => (ok, s2.fillTargets rp defSysM (List.finRange nrSysProcs))
    | some p =>
        match (s2.privOf rp).override p with
        | .error sp => (einval, s2.modPriv (s2.proc rp).pPriv fun _ => sp)
        | .ok sp =>
            (ok, (s2.modPriv (s2.proc rp).pPriv fun _ => sp).fillTargets rp p.sIpcTo
              (List.finRange nrSysProcs))

/-- `case SYS_PRIV_SET_SYS` -/
def privSetSys (s : State) (rp : Slot) (arg : Option (Argument SuppliedPriv)) : Int × State :=
  if !s.rtsIsset rp rtsNoPriv then (eperm, s)
  else
    match arg with
    | none => s.allocateSys rp none
    | some a =>
        let copied := s.copyIn a.access
        if !copied.1 then (s.copyInError a.access, copied.2)
        else copied.2.allocateSys rp (some a.value)

/-- `SYS_PRIV_ADD_IO`, `SYS_PRIV_ADD_MEM` and `SYS_PRIV_ADD_IRQ`: the flag that turns the
check on is set even if the table is full. -/
def privAdd (s : State) (rp : Slot) (check : BitVec 16) (full : Resources → Bool)
    (add : Resources → Resources) : Int × State :=
  let s1 := s.modPriv (s.proc rp).pPriv fun sp => { sp with sFlags := sp.sFlags ||| check }
  if full (s1.privOf rp).sRes then (enomem, s1)
  else (ok, s1.modPriv (s1.proc rp).pPriv fun sp => { sp with sRes := add sp.sRes })

/-- A resource may be added for a system process that has its privileges. -/
def mayAdd (s : State) (rp : Slot) : Bool :=
  !s.rtsIsset rp rtsNoPriv && isSet (s.privOf rp).sFlags sysProc

def privAddIo (s : State) (rp : Slot) (arg : Argument Range) : Int × State :=
  if !s.mayAdd rp then (eperm, s)
  else
    (s.copyIn arg.access).2.privAdd rp checkIoPort (fun r => decide (nrIoRange ≤ r.sNrIoRange))
      fun r =>
        { r with
          sIoTab := r.sIoTab.set r.sNrIoRange.toNat arg.value
          sNrIoRange := r.sNrIoRange + 1 }

def privAddMem (s : State) (rp : Slot) (arg : Argument Range) : Int × State :=
  if !s.mayAdd rp then (eperm, s)
  else
    let copied := s.copyIn arg.access
    -- the only one of the three that looks at the result of the copy
    if !copied.1 then (s.copyInError arg.access, copied.2)
    else
      copied.2.privAdd rp checkMem (fun r => decide (nrMemRange ≤ r.sNrMemRange)) fun r =>
        { r with
          sMemTab := r.sMemTab.set r.sNrMemRange.toNat arg.value
          sNrMemRange := r.sNrMemRange + 1 }

def privAddIrq (s : State) (rp : Slot) (arg : Argument Int) : Int × State :=
  if !s.mayAdd rp then (eperm, s)
  else
    (s.copyIn arg.access).2.privAdd rp checkIrq (fun r => decide (nrIrq ≤ r.sNrIrq)) fun r =>
      { r with
        sIrqTab := r.sIrqTab.set r.sNrIrq.toNat arg.value
        sNrIrq := r.sNrIrq + 1 }

/-- `case SYS_PRIV_QUERY_MEM`; addresses are 32 bits wide. -/
def privQueryMem (s : State) (rp : Slot) (physStart physLen : Nat) : Int :=
  let limit := (physStart + physLen + (2 ^ 32 - 1)) % 2 ^ 32
  if limit < physStart then eperm
  else if (s.proc rp).pPriv = none then eperm
  else if !isSet (s.privOf rp).sFlags sysProc then eperm
  else if ((s.privOf rp).sRes.sMemTab.take (s.privOf rp).sRes.sNrMemRange.toNat).any fun r =>
      decide (r.base ≤ physStart) && decide (limit ≤ r.limit) then ok
  else eperm

/-- The switch of `do_privctl`. -/
def privctlSwitch (s : State) (rp : Slot) : PrivRequest → Int × State
  | .allow =>
      if !s.rtsIsset rp rtsNoPriv || (s.privOf rp).sProcNr == endptNone then (eperm, s)
      else (ok, s.rtsUnset rp rtsNoPriv)
  | .disallow =>
      if s.rtsIsset rp rtsNoPriv then (eperm, s) else (ok, s.rtsSet rp rtsNoPriv)
  | .setSys arg => s.privSetSys rp arg
  | .setUser =>
      if !s.rtsIsset rp rtsNoPriv then (eperm, s)
      else (ok, s.modProc rp fun p => { p with pPriv := some userPrivId })
  | .addIo arg => s.privAddIo rp arg
  | .addMem arg => s.privAddMem rp arg
  | .addIrq arg => s.privAddIrq rp arg
  | .queryMem physStart physLen => (s.privQueryMem rp physStart physLen, s)
  | .other => (einval, s)

/-- `do_privctl(m_ptr)`; the caller is `who_p`. -/
def doPrivctl (s : State) (endpt : Int) (request : PrivRequest) : Int × State :=
  if !isSet (s.privOf s.whoP).sFlags sysProc then (eperm, s)
  else if endpt = endptSelf then s.privctlSwitch s.whoP request
  else
    match s.isokendpt endpt with
    | none => (einval, s)
    | some rp => s.privctlSwitch rp request

end State

end Minix.Kernel
