/-
  Kernel/Step.lean --- the elementary changes that kernel code makes to the process
  table.

  A kernel function is a sequence of elementary changes: it sets or clears a flag
  with the macros of `proc.h`, records a signal, hands a message over, blocks or
  releases a process, or does something that no invariant looks at.  Each function
  is taken apart once, into a sequence of `Step`s; an invariant then only has to be
  kept by each kind of step.

  A step carries the tests that the code made before it.  Irregular
  behaviour and deaths are parameters (`Mode`), because some results hold only for runs
  without them.

  What no invariant looks at is said with an erasure, `State.erase`: a change is
  `Step.quiet` if the states before and after it have the same erasure.
-/
import Mathlib.Logic.Relation
import Minix.Kernel.ReadyQueue
import Minix.Kernel.Schedcheck

set_option autoImplicit false

namespace Minix.Kernel

open Minix.Foundation Relation State

variable {α : Type} {f g : BitVec 16} {s s' : State} {i caller : Slot} {srcE e : Int}

/-! ## What invariants look at -/

/-- An entry without its accounting, its registers, its memory request and the flags
that are of no concern to the invariants. -/
def Proc.erase (p : Proc) : Proc :=
  { p with
    pMiscFlags := p.pMiscFlags &&& mfDelivermsg
    pTicksLeft := 0
    pUserTime := 0
    pSysTime := 0
    pVirtLeft := 0
    pProfLeft := 0
    pDelivermsgVir := 0
    pDelivermsgLin := 0
    pRetreg := 0
    vmNextrequestor := none
    vmType := .sysNone
    vmTarget := 0 }

/-- A privilege structure without its pending notifications and its table. -/
def Priv.erase (sp : Priv) : Priv :=
  { sp with
    sAsyntab := 0
    sAsynsize := 0
    sNotifyPending := 0
    sIntPending := 0
    sSigPending := 0 }

namespace State

/-- The state without what no invariant looks at. -/
def erase (s : State) : State :=
  { s with
    proc := fun i => (s.proc i).erase
    priv := fun sp => (s.priv sp).erase
    billPtr := idleSlot
    nextTimeout := 0
    realtime := 0
    lostTicks := 0
    vmrequest := none
    whoP := idleSlot
    amem := fun _ _ => ⟨0, 0, 0, zeroMessage⟩
    halt := none }

variable {s s' : State}

theorem erase_modProc (s : State) (rp : Slot) (f : Proc → Proc)
    (hf : ∀ p : Proc, (f p).erase = p.erase) : (s.modProc rp f).erase = s.erase := by
  have hproc : ∀ i, ((s.modProc rp f).proc i).erase = (s.proc i).erase := by
    intro i
    rw [modProc_proc]
    split_ifs with hi
    · rw [hi, hf]
    · rfl
  simp only [erase, hproc]
  rfl

theorem erase_modPriv {s : State} {sp : PrivPtr} {f : Priv → Priv}
    (hf : ∀ p : Priv, (f p).erase = p.erase) : (s.modPriv sp f).erase = s.erase := by
  have hpriv : ∀ p, ((s.modPriv sp f).priv p).erase = (s.priv p).erase := by
    intro p
    rw [modPriv_priv]
    split_ifs with hp
    · rw [hp, hf]
    · rfl
  simp only [erase, hpriv]
  rfl

/-- The flag for an undelivered message is not erased. -/
theorem mfIsset_erase (s : State) {rp : Slot} :
    s.erase.mfIsset rp mfDelivermsg = s.mfIsset rp mfDelivermsg := by
  have hkeep : ∀ x : BitVec 16, isSet (x &&& mfDelivermsg) mfDelivermsg =
      isSet x mfDelivermsg := by
    intro x
    simp [isSet, BitVec.and_assoc]
  exact hkeep _

end State

/-- Setting flags other than `MF_DELIVERMSG`. -/
theorem Proc.erase_setMisc_or (p : Proc) (hf : f &&& mfDelivermsg = 0#16) :
    (p.setMisc (p.pMiscFlags ||| f)).erase = p.erase := by
  have hword : (p.pMiscFlags ||| f) &&& mfDelivermsg = p.pMiscFlags &&& mfDelivermsg := by
    rw [BitVec.and_comm, BitVec.and_or_distrib_left, BitVec.and_comm mfDelivermsg f, hf,
      BitVec.or_zero, BitVec.and_comm]
  simp only [Proc.erase, Proc.setMisc, hword]

/-- Clearing flags other than `MF_DELIVERMSG`. -/
theorem Proc.erase_setMisc_clear (p : Proc) (hf : mfDelivermsg &&& f = 0#16) :
    (p.setMisc (clearBits p.pMiscFlags f)).erase = p.erase := by
  have hword : clearBits p.pMiscFlags f &&& mfDelivermsg = p.pMiscFlags &&& mfDelivermsg := by
    rw [clearBits, BitVec.and_assoc, BitVec.and_comm (~~~f)]
    exact congrArg _ (clearBits_eq_self hf)
  simp only [Proc.erase, Proc.setMisc, hword]

/-! ## Flags after the macros -/

namespace State

variable (s : State) (rp i : Slot)

theorem rtsIsset_rtsSet_of_disjoint (h : g &&& f = 0#16) :
    (s.rtsSet rp f).rtsIsset i g = s.rtsIsset i g := by
  simp only [rtsIsset, flags_rtsSet]
  split_ifs with hi
  · rw [hi, isSet_or_of_disjoint h]
  · rfl

theorem rtsIsset_rtsUnset_of_disjoint (h : g &&& f = 0#16)
    (hpre : g &&& rtsPreempted = 0#16) : (s.rtsUnset rp f).rtsIsset i g = s.rtsIsset i g := by
  simp only [rtsIsset]
  rcases flags_rtsUnset s rp with hflags | ⟨_, _, hflags⟩
  · rw [hflags]
    split_ifs with hi
    · rw [hi, isSet_clearBits_of_disjoint h]
    · rfl
  · rw [hflags, isSet_or_of_disjoint hpre]

/-- Clearing flags sets none, apart from the preemption of the current process. -/
theorem rtsIsset_of_rtsUnset (hpre : g &&& rtsPreempted = 0#16)
    (h : (s.rtsUnset rp f).rtsIsset i g = true) : s.rtsIsset i g = true := by
  simp only [rtsIsset] at h ⊢
  rcases flags_rtsUnset s rp with hflags | ⟨_, _, hflags⟩
  · rw [hflags] at h
    split_ifs at h with hi
    · rw [hi]
      exact isSet_of_isSet_clearBits h
    · exact h
  · rwa [hflags, isSet_or_of_disjoint hpre] at h

theorem rtsIsset_rtsUnset_of_ne (hi : i ≠ rp) (hpre : g &&& rtsPreempted = 0#16) :
    (s.rtsUnset rp f).rtsIsset i g = s.rtsIsset i g := by
  simp only [rtsIsset]
  rcases flags_rtsUnset s rp with hflags | ⟨_, _, hflags⟩
  · rw [hflags, if_neg hi]
  · rw [hflags, isSet_or_of_disjoint hpre]

theorem rtsIsset_rtsUnset_self (hf : f ≠ 0#16) : (s.rtsUnset rp f).rtsIsset rp f = false := by
  simp only [rtsIsset]
  rcases flags_rtsUnset s rp with hflags | ⟨_, hne, _⟩
  · rw [hflags, if_pos rfl, isSet_clearBits_self hf]
  · exact absurd rfl hne

/-- The slot is not marked free. -/
def Alive : Prop := s.rtsIsset rp rtsSlotFree = false

end State

/-! ## Steps -/

/-- Irregular behaviour that a run may show. -/
structure Mode where
  /-- Writing a result back to an asynchronous message table may fail. -/
  tornTable : Prop
  /-- A process may block on itself. -/
  selfWait : Prop
  /-- A free slot may be given further flags. -/
  zombie : Prop
  /-- A process may lose its endpoint. -/
  deaths : Prop
  /-- A message may be dropped because its receiver starts a new program. -/
  discards : Prop
  /-- PM may take over the signals of a process and finish with them. -/
  handshake : Prop

variable {μ : Mode}

/-- Anything may happen. -/
def Mode.any : Mode := ⟨True, True, True, True, True, True⟩

/-- `caller` is in a call and not blocked; its delivery slot is empty, unless a failed
write to a table has left a message there. -/
structure CanTake (μ : Mode) (s : State) (caller : Slot) : Prop where
  sending : s.rtsIsset caller rtsSending = false
  receiving : s.rtsIsset caller rtsReceiving = false
  noEndpoint : s.rtsIsset caller rtsNoEndpoint = false
  alive : s.Alive caller
  slot : μ.tornTable ∨ s.mfIsset caller mfDelivermsg = false

/-- `dstE` is the endpoint of slot `dst`, which is not free. -/
structure Names (μ : Mode) (s : State) (dstE : Int) (dst : Slot) : Prop where
  nr : procNr dst = endpointP dstE
  endpoint : (s.proc dst).pEndpoint = dstE
  alive : μ.zombie ∨ s.Alive dst

/-- The tests before `caller` blocks in a send to `dst`. -/
structure MayBlockSend (μ : Mode) (s : State) (caller dst : Slot) (dstE : Int) : Prop where
  can : CanTake μ s caller
  names : Names μ s dstE dst
  noEndpoint : s.rtsIsset dst rtsNoEndpoint = false
  willReceive : s.willReceive dst (s.proc caller).pEndpoint = false
  deadlock : s.deadlock .send caller (procNr dst) = .ok 0
  self : μ.selfWait ∨ dst ≠ caller

/-- The search of `mini_receive` finds no blocked sender. -/
def State.NoSender (s : State) (caller : Slot) (src : Option Slot) : Prop :=
  ∃ xpp, s.callerLinks.seek (fun xp => src.all (· == xp)) (nrSlots + 1) (.head caller) = some xpp ∧
    s.callerLinks.get xpp = none

/-- The tests before `caller` blocks in a receive from `src`, `none` for `ANY`. -/
structure MayBlockReceive (μ : Mode) (s : State) (caller : Slot) (srcE : Int)
    (src : Option Slot) : Prop where
  receiving : s.rtsIsset caller rtsReceiving = false
  noEndpoint : s.rtsIsset caller rtsNoEndpoint = false
  alive : s.Alive caller
  slot : μ.tornTable ∨ s.mfIsset caller mfDelivermsg = false
  any : src = none → srcE = endptAny
  names : ∀ x, src = some x → Names μ s srcE x
  deadlock : s.deadlock .receive caller ((src.map procNr).getD endptAny) = .ok 0
  self : μ.selfWait ∨ src ≠ some caller
  /-- Either the caller is still blocked in the send of a SENDREC, or nobody sends. -/
  sender : s.rtsIsset caller rtsSending = true ∧ (s.proc caller).pSendtoE = srcE ∧ src ≠ none ∨
    s.rtsIsset caller rtsSending = false ∧ s.NoSender caller src

/-- The flags that are set and cleared by steps of their own. -/
def rtsOwned : BitVec 16 :=
  rtsPreempted ||| rtsSending ||| rtsReceiving ||| rtsSlotFree ||| rtsNoEndpoint ||| rtsSignaled |||
    rtsSigPending

/-- An elementary change that blocks nobody in a call. -/
inductive Light (μ : Mode) : State → State → Prop
  /-- A change that no invariant looks at. -/
  | quiet {s s' : State} (h : s'.erase = s.erase) : Light μ s s'
  /-- A flag is set with the macro. -/
  | set (s : State) (rp : Slot) {f : BitVec 16} (hf : f ≠ 0#16) (hd : rtsOwned &&& f = 0#16)
      (hlive : μ.zombie ∨ s.Alive rp) : Light μ s (s.rtsSet rp f)
  /-- A flag is cleared with the macro. -/
  | unset (s : State) (rp : Slot) {f : BitVec 16} (hd : rtsOwned &&& f = 0#16) :
      Light μ s (s.rtsUnset rp f)
  /-- A signal for a process that has been signalled. -/
  | pend (s : State) (rp : Slot) (sigs : BitVec 32) (h : s.rtsIsset rp rtsSignaled = true) :
      Light μ s (s.modProc rp fun p => { p with pPending := p.pPending ||| sigs })
  /-- The first signal for a process. -/
  | signal (s : State) (rp : Slot) {sigs : BitVec 32} (hsigs : sigs ≠ 0#32)
      (hlive : μ.zombie ∨ s.Alive rp) :
      Light μ s ((s.modProc rp fun p => { p with pPending := p.pPending ||| sigs }).rtsSet rp
        (rtsSignaled ||| rtsSigPending))
  /-- PM has handled the signals of a process, and there are no new ones. -/
  | endksig (s : State) (rp : Slot) (hshake : μ.handshake)
      (h : s.rtsIsset rp rtsSignaled = false) :
      Light μ s (s.rtsUnset rp rtsSigPending)
  /-- A message for a process that waits for it. -/
  | deliver (s : State) (src dst : Slot) (m : Message)
      (h : s.willReceive dst (s.proc src).pEndpoint = true) :
      Light μ s ((s.queueMess (s.proc src).pEndpoint (some m) dst).2.rtsUnset dst rtsReceiving)

/-- An elementary change of the kernel state, with the tests made before it. -/
inductive Step (μ : Mode) : State → State → Prop
  | light {s s' : State} (h : Light μ s s') : Step μ s s'
  /-- PM takes over the signals of a process. -/
  | getksig (s : State) (rp : Slot) (hshake : μ.handshake) :
      Step μ s ((s.modProc rp fun p => { p with pPending := 0 }).rtsUnset rp rtsSignaled)
  /-- A message for the caller itself. -/
  | fill (s : State) (ep : Int) (m : Message) {caller : Slot} (h : CanTake μ s caller) :
      Step μ s (s.queueMess ep (some m) caller).2
  /-- The message is copied to the memory of the process. -/
  | copyOut (s : State) (rp : Slot) (h : s.mfIsset rp mfDelivermsg = true) :
      Step μ s ((s.modProc rp fun p => p.setMisc (clearBits p.pMiscFlags mfDelivermsg)).record
        (.copied rp (s.proc rp).pDelivermsg))
  /-- The message is dropped because the process starts a new program. -/
  | discard (s : State) (rp : Slot) (hdiscards : μ.discards)
      (h : s.mfIsset rp mfDelivermsg = true) :
      Step μ s ((s.modProc rp fun p => p.setMisc (clearBits p.pMiscFlags mfDelivermsg)).record
        (.discarded rp (s.proc rp).pDelivermsg))
  /-- The caller blocks in a send. -/
  | blockSend (s : State) {caller dst : Slot} {dstE : Int} (msg : Message)
      (h : MayBlockSend μ s caller dst dstE) : Step μ s (s.blockSender caller dst dstE msg)
  /-- The caller blocks in a receive. -/
  | blockRecv (s : State) {caller : Slot} {srcE : Int} {src : Option Slot}
      (h : MayBlockReceive μ s caller srcE src) :
      Step μ s ((s.modProc caller fun p => { p with pGetfromE := srcE }).rtsSet caller
        rtsReceiving)
  /-- The first blocked sender that the caller asks for is released. -/
  | take (s : State) {caller src : Slot} {wanted : Option Slot} {xpp : Ref Slot Slot}
      (hsend : s.rtsIsset caller rtsSending = false)
      (hend : s.rtsIsset caller rtsNoEndpoint = false) (halive : s.Alive caller)
      (hseek : s.callerLinks.seek (fun xp => wanted.all (· == xp)) (nrSlots + 1) (.head caller) =
        some xpp) (hget : s.callerLinks.get xpp = some src) :
      Step μ s (((s.rtsUnset src rtsSending).setCallerLink xpp
        ((s.rtsUnset src rtsSending).proc src).pQLink).record (.taken src caller wanted))
  /-- A receive ends without a message. -/
  | stopRecv (s : State) (rp : Slot) : Step μ s (s.rtsUnset rp rtsReceiving)
  /-- A process loses its endpoint. -/
  | die (s : State) (rc : Slot) (hdeaths : μ.deaths) (hlive : μ.zombie ∨ s.Alive rc) :
      Step μ s ((s.rtsSet rc rtsNoEndpoint).record (.died rc))
  /-- A blocked sender loses its endpoint. -/
  | withdraw (s : State) {rc target : Slot} {xpp : Ref Slot Slot} (hdeaths : μ.deaths)
      (hend : s.rtsIsset rc rtsNoEndpoint = true) (hsend : s.rtsIsset rc rtsSending = true)
      (htarget : s.isokendpt (s.proc rc).pSendtoE = some target)
      (hseek : s.callerLinks.seek (fun xp => xp == rc) (nrSlots + 1) (.head target) = some xpp) :
      Step μ s (((s.unlinkSender rc xpp).modProc rc fun p =>
        p.setRts (clearBits p.pRtsFlags rtsSending)).record (.withdrawn rc target))
  /-- A receiver loses its endpoint. -/
  | endRecv (s : State) {rc : Slot} (hdeaths : μ.deaths)
      (hend : s.rtsIsset rc rtsNoEndpoint = true) :
      Step μ s (s.modProc rc fun p => p.setRts (clearBits p.pRtsFlags rtsReceiving))
  /-- The destination of a blocked sender loses its endpoint. -/
  | orphan (s : State) {rp rc : Slot} (hdeaths : μ.deaths)
      (hend : s.rtsIsset rc rtsNoEndpoint = true) (hsend : s.rtsIsset rp rtsSending = true)
      (hto : (s.proc rp).pSendtoE = (s.proc rc).pEndpoint) :
      Step μ s ((s.rtsUnset rp rtsSending).record (.orphaned rp rc))

/-- A sequence of steps. -/
abbrev Steps (μ : Mode) : State → State → Prop := ReflTransGen (Step μ)

/-- A sequence of changes that block nobody. -/
abbrev Lights (μ : Mode) : State → State → Prop := ReflTransGen (Light μ)

theorem Lights.steps (h : Lights μ s s') : Steps μ s s' :=
  h.lift id fun _ _ hl => .light hl

theorem lights_of_erase (h : s'.erase = s.erase) : Lights μ s s' :=
  .single (.quiet h)

theorem lights_stop {s : State} {h : Halt} : Lights μ s (s.stop h) :=
  lights_of_erase rfl

/-! ## Writes -/

/-- An entry without what the passing of messages writes, flags apart. -/
def Proc.unmessaged (p : Proc) : Proc :=
  { p.erase with
    pMiscFlags := 0#16
    pCallerQ := none
    pQLink := none
    pGetfromE := 0
    pSendtoE := 0
    pSendmsg := zeroMessage
    pDelivermsg := zeroMessage }

namespace State

/-- The state without what the passing of messages writes, flags apart. -/
def unmessaged (s : State) : State :=
  { s.erase with
    proc := fun i => (s.proc i).unmessaged
    log := [] }

theorem unmessaged_of_erase (h : s'.erase = s.erase) : s'.unmessaged = s.unmessaged :=
  frame_congr unmessaged h rfl

variable (s : State)

theorem unmessaged_modProc {rp : Slot} {f : Proc → Proc}
    (hf : (f (s.proc rp)).unmessaged = (s.proc rp).unmessaged) :
    (s.modProc rp f).unmessaged = s.unmessaged := by
  have hproc := s.modProc_congr rp Proc.unmessaged hf
  simp only [unmessaged, hproc]
  rfl

theorem unmessaged_queueMess {ep : Int} {m : Option Message} {dst : Slot} :
    (s.queueMess ep m dst).2.unmessaged = s.unmessaged := by
  cases m with
  | none => rfl
  | some m =>
    exact s.unmessaged_modProc (f := fun p =>
      { p with pDelivermsg := { m with mSource := ep }, pMiscFlags := p.pMiscFlags ||| mfDelivermsg }) rfl

theorem unmessaged_setCallerLink {r : Ref Slot Slot} {v : Option Slot} :
    (s.setCallerLink r v).unmessaged = s.unmessaged := by
  cases r with
  | head rp => exact s.unmessaged_modProc (f := fun p => { p with pCallerQ := v }) rfl
  | next rp => exact s.unmessaged_modProc (f := fun p => { p with pQLink := v }) rfl

theorem unmessaged_unlinkSender (rc : Slot) (xpp : Ref Slot Slot) :
    (s.unlinkSender rc xpp).unmessaged = s.unmessaged := by
  unfold unlinkSender
  split
  · rfl
  · exact s.unmessaged_setCallerLink

end State

/-- The flags that steps write only to signal a process or to free a slot. -/
def rtsKept : BitVec 16 := rtsPreempted ||| rtsSlotFree ||| rtsSignaled ||| rtsSigPending

/-- What steps are made of, seen by those who look at no message. -/
inductive Write (μ : Mode) : State → State → Prop
  | other {s s' : State} (h : s'.unmessaged = s.unmessaged) : Write μ s s'
  | set (s : State) (rp : Slot) {f : BitVec 16} (hf : f ≠ 0#16) (hd : rtsKept &&& f = 0#16)
      (hlive : μ.zombie ∨ s.Alive rp) : Write μ s (s.rtsSet rp f)
  | unset (s : State) (rp : Slot) {f : BitVec 16} (hd : rtsKept &&& f = 0#16) : Write μ s (s.rtsUnset rp f)
  /-- Flags are cleared without the macro, and the process stays blocked. -/
  | mask (s : State) (rp : Slot) {f : BitVec 16} (hd : rtsKept &&& f = 0#16)
      (hne : clearBits (s.proc rp).pRtsFlags f ≠ 0#16) :
      Write μ s (s.modProc rp fun p => p.setRts (clearBits p.pRtsFlags f))
  | pend (s : State) (rp : Slot) (sigs : BitVec 32) (h : s.rtsIsset rp rtsSignaled = true) :
      Write μ s (s.modProc rp fun p => { p with pPending := p.pPending ||| sigs })
  | signal (s : State) (rp : Slot) {sigs : BitVec 32} (hsigs : sigs ≠ 0#32)
      (hlive : μ.zombie ∨ s.Alive rp) :
      Write μ s ((s.modProc rp fun p => { p with pPending := p.pPending ||| sigs }).rtsSet rp
        (rtsSignaled ||| rtsSigPending))
  | endksig (s : State) (rp : Slot) (hshake : μ.handshake) : Write μ s (s.rtsUnset rp rtsSigPending)
  | getksig (s : State) (rp : Slot) (hshake : μ.handshake) :
      Write μ s ((s.modProc rp fun p => { p with pPending := 0 }).rtsUnset rp rtsSignaled)

/-- A sequence of writes. -/
abbrev Writes (μ : Mode) : State → State → Prop := ReflTransGen (Write μ)

theorem Light.writes (h : Light μ s s') : Writes μ s s' := by
  cases h with
  | quiet h => exact .single (.other (unmessaged_of_erase h))
  | set rp hf hd hlive => exact .single (.set s rp hf (disjoint_of_isSet (by decide) hd) hlive)
  | unset rp hd => exact .single (.unset s rp (disjoint_of_isSet (by decide) hd))
  | pend rp sigs h => exact .single (.pend s rp sigs h)
  | signal rp hsigs hlive => exact .single (.signal s rp hsigs hlive)
  | endksig rp hshake _ => exact .single (.endksig s rp hshake)
  | deliver src dst m _ =>
    exact (ReflTransGen.single (.other (s.unmessaged_queueMess))).tail
      (.unset _ dst (f := rtsReceiving) (by decide))

/-- A process without an endpoint stays blocked when another flag is cleared. -/
theorem Write.masked {s : State} {rc : Slot} (hend : s.rtsIsset rc rtsNoEndpoint = true) {f : BitVec 16}
    (hd : rtsKept &&& f = 0#16) (hf : rtsNoEndpoint &&& f = 0#16) :
    Write μ s (s.modProc rc fun p => p.setRts (clearBits p.pRtsFlags f)) :=
  .mask s rc hd (ne_zero_of_isSet (m := rtsNoEndpoint) (by decide)
    ((isSet_clearBits_of_disjoint hf).trans hend))

theorem Writes.record (h : Writes μ s s') {e : Event} : Writes μ s (s'.record e) := h.tail (.other rfl)

theorem Step.writes (h : Step μ s s') : Writes μ s s' := by
  have hset : ∀ {rp : Slot} {f : BitVec 16} (k : Proc → Proc), (k (s.proc rp)).unmessaged = (s.proc rp).unmessaged →
      f ≠ 0#16 → rtsKept &&& f = 0#16 → s.Alive rp → Writes μ s ((s.modProc rp k).rtsSet rp f) := by
    intro rp f k hk hf hd halive
    have hsave := s.unmessaged_modProc hk
    refine (ReflTransGen.single (.other hsave)).tail (.set _ rp hf hd (.inr ?_))
    exact (frame_congr (fun t => t.rtsIsset rp rtsSlotFree) hsave rfl).trans halive
  cases h with
  | light h => exact h.writes
  | getksig rp hshake => exact .single (.getksig s rp hshake)
  | fill ep m _ => exact .single (.other (s.unmessaged_queueMess))
  | copyOut rp _ | discard rp _ _ =>
    exact Writes.record (.single (.other (s.unmessaged_modProc (by rfl))))
  | @blockSend caller dst dstE msg hmay =>
    have hmark : Writes μ s (s.markSending caller dstE msg) := by
      refine (hset (f := rtsSending) (fun p => { p with pSendmsg := msg }) rfl (by decide) (by decide)
        hmay.can.alive).tail (.other ?_)
      exact unmessaged_modProc _ (f := fun p => { p with pSendtoE := dstE }) rfl
    unfold blockSender
    dsimp only
    split
    · exact hmark.tail (.other rfl)
    · exact Writes.record ((hmark.tail (.other (unmessaged_setCallerLink _))).tail
        (.other (unmessaged_setCallerLink _)))
  | @blockRecv caller srcE _ hmay =>
    exact hset (fun p => { p with pGetfromE := srcE }) rfl (by decide) (by decide) hmay.alive
  | @take caller src wanted xpp _ _ _ _ _ =>
    exact Writes.record ((ReflTransGen.single (.unset s src (by decide))).tail
      (.other (unmessaged_setCallerLink _)))
  | stopRecv rp => exact .single (.unset s rp (by decide))
  | die rc _ hlive =>
    exact Writes.record (.single (.set s rc (by decide) (by decide) hlive))
  | @withdraw rc target xpp _ hend _ _ _ =>
    have hunlink := s.unmessaged_unlinkSender rc xpp
    refine Writes.record ((ReflTransGen.single (.other hunlink)).tail
      (.masked ?_ (by decide) (by decide)))
    exact (frame_congr (fun t => t.rtsIsset rc rtsNoEndpoint) hunlink rfl).trans hend
  | endRecv _ hend => exact .single (.masked hend (by decide) (by decide))
  | @orphan rp rc _ _ _ _ =>
    exact Writes.record (.single (.unset s rp (by decide)))

/-- What writes keep, steps keep. -/
theorem Steps.writes (h : Steps μ s s') : Writes μ s s' := by
  induction h with
  | refl => exact .refl
  | tail _ hstep ih => exact ih.trans hstep.writes

/-! ## What light changes keep -/

/-- What a caller relies on while it has not blocked. -/
structure Calm (μ : Mode) (s s' : State) : Prop where
  links : s'.callerLinks = s.callerLinks
  endpoint : ∀ i, (s'.proc i).pEndpoint = (s.proc i).pEndpoint
  sendto : ∀ i, (s'.proc i).pSendtoE = (s.proc i).pSendtoE
  sending : ∀ i, s'.rtsIsset i rtsSending = s.rtsIsset i rtsSending
  noEndpoint : ∀ i, s'.rtsIsset i rtsNoEndpoint = s.rtsIsset i rtsNoEndpoint
  alive : ∀ i, s'.Alive i ↔ s.Alive i
  receiving : ∀ i, s.rtsIsset i rtsReceiving = false → s'.rtsIsset i rtsReceiving = false
  slot : μ.tornTable ∨ ∀ i, s.rtsIsset i rtsReceiving = false →
    s'.mfIsset i mfDelivermsg = s.mfIsset i mfDelivermsg

namespace Calm

variable {μ : Mode} {s s' : State}

theorem refl {s : State} : Calm μ s s :=
  ⟨rfl, fun _ => rfl, fun _ => rfl, fun _ => rfl, fun _ => rfl, fun _ => Iff.rfl,
    fun _ h => h, .inr fun _ _ => rfl⟩

theorem trans {s'' : State} (h : Calm μ s s') (h' : Calm μ s' s'') : Calm μ s s'' where
  links := h'.links.trans h.links
  endpoint i := (h'.endpoint i).trans (h.endpoint i)
  sendto i := (h'.sendto i).trans (h.sendto i)
  sending i := (h'.sending i).trans (h.sending i)
  noEndpoint i := (h'.noEndpoint i).trans (h.noEndpoint i)
  alive i := (h'.alive i).trans (h.alive i)
  receiving i hi := h'.receiving i (h.receiving i hi)
  slot := by
    rcases h.slot with htorn | hs
    · exact .inl htorn
    · exact h'.slot.imp_right fun hs' i hi => (hs' i (h.receiving i hi)).trans (hs i hi)

theorem quiet (h : s'.erase = s.erase) : Calm μ s s' where
  links := frame_congr callerLinks h rfl
  endpoint i := frame_proc Proc.pEndpoint h i rfl
  sendto i := frame_proc Proc.pSendtoE h i rfl
  sending i := frame_congr (fun t => t.rtsIsset i rtsSending) h rfl
  noEndpoint i := frame_congr (fun t => t.rtsIsset i rtsNoEndpoint) h rfl
  alive i := iff_of_eq (frame_congr (fun t => t.Alive i) h rfl)
  receiving i hi :=
    (frame_congr (fun t => t.rtsIsset i rtsReceiving) h rfl).trans hi
  slot := .inr fun i _ =>
    frame_congr (fun t => t.mfIsset i mfDelivermsg) h (funext fun t => t.mfIsset_erase)

/-- A change of fields that only the scheduler writes, and of flags that say nothing
about calls. -/
theorem of_unsched (h : s'.unsched = s.unsched)
    (hflags : ∀ i, ∀ g ∈ [rtsSending, rtsNoEndpoint, rtsSlotFree],
      s'.rtsIsset i g = s.rtsIsset i g)
    (hrecv : ∀ i, s.rtsIsset i rtsReceiving = false → s'.rtsIsset i rtsReceiving = false) :
    Calm μ s s' where
  links := frame_congr callerLinks h rfl
  endpoint i := frame_proc Proc.pEndpoint h i rfl
  sendto i := frame_proc Proc.pSendtoE h i rfl
  sending i := hflags i _ (by simp)
  noEndpoint i := hflags i _ (by simp)
  alive i := by rw [Alive, Alive, hflags i _ (by simp)]
  receiving := hrecv
  slot := .inr fun i _ =>
    frame_congr (fun t => t.mfIsset i mfDelivermsg) h rfl

variable (s : State) (rp : Slot)

theorem rtsSet (hd : (rtsSending ||| rtsReceiving ||| rtsSlotFree ||| rtsNoEndpoint) &&& f = 0#16) :
    Calm μ s (s.rtsSet rp f) := by
  refine of_unsched (unsched_rtsSet s rp f) ?_ ?_
  · intro i g hg
    refine rtsIsset_rtsSet_of_disjoint s rp i (disjoint_of_isSet ?_ hd)
    simp only [List.mem_cons, List.not_mem_nil, or_false] at hg
    rcases hg with rfl | rfl | rfl <;> decide
  · intro i hi
    rw [rtsIsset_rtsSet_of_disjoint s rp i (disjoint_of_isSet (by decide) hd)]
    exact hi

theorem rtsUnset (hd : (rtsSending ||| rtsSlotFree ||| rtsNoEndpoint) &&& f = 0#16) :
    Calm μ s (s.rtsUnset rp f) := by
  refine of_unsched (unsched_rtsUnset s rp f) ?_ ?_
  · intro i g hg
    refine rtsIsset_rtsUnset_of_disjoint s rp i (disjoint_of_isSet ?_ hd) ?_
    · simp only [List.mem_cons, List.not_mem_nil, or_false] at hg
      rcases hg with rfl | rfl | rfl <;> decide
    · simp only [List.mem_cons, List.not_mem_nil, or_false] at hg
      rcases hg with rfl | rfl | rfl <;> decide
  · intro i hi
    by_contra hset
    have h := rtsIsset_of_rtsUnset s rp i (f := f) (g := rtsReceiving) (by decide)
      (by simpa using hset)
    simp [hi] at h

theorem modPending {g : Proc → BitVec 32} :
    Calm μ s (s.modProc rp fun p => { p with pPending := g p }) := by
  have hflags : ∀ i f, (s.modProc rp fun p => { p with pPending := g p }).rtsIsset i f =
      s.rtsIsset i f := fun i f =>
    modProc_congr s rp (fun p => isSet p.pRtsFlags f) rfl i
  refine ⟨?_, modProc_congr s rp _ rfl, modProc_congr s rp _ rfl,
    fun i => hflags i _, fun i => hflags i _, fun i => by rw [Alive, Alive, hflags],
    fun i hi => (hflags i _).trans hi, ?_⟩
  · have hhead := modProc_congr s rp (f := fun p => { p with pPending := g p })
      Proc.pCallerQ rfl
    have hnext := modProc_congr s rp (f := fun p => { p with pPending := g p })
      Proc.pQLink rfl
    simp only [callerLinks, hhead, hnext]
  · refine .inr fun i _ => ?_
    exact modProc_congr s rp (fun p => isSet p.pMiscFlags mfDelivermsg) rfl i

end Calm

namespace State

variable (s : State)

/-- What filling a delivery slot does: the message and its flag, and the history. -/
theorem queueMess_some (ep : Int) (m : Message) (dst : Slot) :
    s.queueMess ep (some m) dst = (ok, (s.modProc dst fun p =>
      { p with pDelivermsg := { m with mSource := ep },
               pMiscFlags := p.pMiscFlags ||| mfDelivermsg }).record
        (.queued dst { m with mSource := ep })) := rfl

/-- Filling a delivery slot leaves every other flag word and link alone. -/
theorem queueMess_congr (k : Proc → α) (hk : ∀ (p : Proc) (m : Message) (f : BitVec 16),
      k { p with pDelivermsg := m, pMiscFlags := f } = k p)
    (ep : Int) (m : Option Message) (dst i : Slot) :
    k ((s.queueMess ep m dst).2.proc i) = k (s.proc i) := by
  cases m with
  | none => rfl
  | some m =>
    rw [queueMess_some, record_proc]
    refine modProc_congr s dst k ?_ i
    exact hk _ _ _

variable (ep : Int) (m : Option Message)

theorem callerLinks_queueMess (dst : Slot) : (s.queueMess ep m dst).2.callerLinks = s.callerLinks := by
  have hhead := s.queueMess_congr Proc.pCallerQ (fun _ _ _ => rfl) ep m dst
  have hnext := s.queueMess_congr Proc.pQLink (fun _ _ _ => rfl) ep m dst
  simp only [callerLinks, hhead, hnext]

theorem rtsIsset_queueMess {dst i : Slot} {f : BitVec 16} :
    (s.queueMess ep m dst).2.rtsIsset i f = s.rtsIsset i f :=
  s.queueMess_congr (fun p => isSet p.pRtsFlags f) (fun _ _ _ => rfl) ep m dst i

theorem mfIsset_queueMess_of_ne {dst : Slot} (hi : i ≠ dst)
    {f : BitVec 16} : (s.queueMess ep m dst).2.mfIsset i f = s.mfIsset i f := by
  cases m with
  | none => rfl
  | some m => simp [queueMess, mfIsset, hi]

end State

namespace Light

variable {μ : Mode} {s s' : State}

/-- A message for a process that waits for it concerns no other process. -/
theorem calm_deliver {src dst : Slot} {m : Message}
    (h : s.willReceive dst (s.proc src).pEndpoint = true) :
    Calm μ s ((s.queueMess (s.proc src).pEndpoint (some m) dst).2.rtsUnset dst rtsReceiving) := by
  set t := (s.queueMess (s.proc src).pEndpoint (some m) dst).2
  have hflags : ∀ i f, t.rtsIsset i f = s.rtsIsset i f := fun i f =>
    s.rtsIsset_queueMess _ _
  have hunset := Calm.rtsUnset (μ := ⟨False, False, False, False, False, False⟩) t dst
    (f := rtsReceiving) (by decide)
  have hdst : s.rtsIsset dst rtsReceiving = true := by
    simp only [willReceive, Bool.and_eq_true] at h
    exact h.1.1
  refine ⟨hunset.links.trans (s.callerLinks_queueMess _ _ _), ?_, ?_, ?_, ?_, ?_, ?_, ?_⟩
  · intro i
    exact (hunset.endpoint i).trans (s.queueMess_congr Proc.pEndpoint (fun _ _ _ => rfl) _ _ _ i)
  · intro i
    exact (hunset.sendto i).trans (s.queueMess_congr Proc.pSendtoE (fun _ _ _ => rfl) _ _ _ i)
  · exact fun i => (hunset.sending i).trans (hflags i _)
  · exact fun i => (hunset.noEndpoint i).trans (hflags i _)
  · intro i
    rw [hunset.alive i, Alive, Alive, hflags]
  · exact fun i hi => hunset.receiving i ((hflags i _).trans hi)
  refine .inr fun i hi => ?_
  have hne : i ≠ dst := by
    rintro rfl
    simp [hi] at hdst
  have hslot := hunset.slot.resolve_left id i ((hflags i _).trans hi)
  exact hslot.trans (s.mfIsset_queueMess_of_ne _ _ hne)

theorem calm (h : Light μ s s') : Calm μ s s' := by
  cases h with
  | quiet h => exact Calm.quiet h
  | set rp hf hd _ => exact Calm.rtsSet s rp (disjoint_of_isSet (by decide) hd)
  | unset rp hd => exact Calm.rtsUnset s rp (disjoint_of_isSet (by decide) hd)
  | pend rp sigs _ => exact Calm.modPending s rp
  | signal rp _ _ => exact (Calm.modPending s rp).trans (Calm.rtsSet _ rp (by decide))
  | endksig rp _ _ => exact Calm.rtsUnset s rp (by decide)
  | deliver src dst m h => exact calm_deliver h

end Light

theorem Lights.calm (h : Lights μ s s') : Calm μ s s' := by
  induction h with
  | refl => exact Calm.refl
  | tail _ hstep ih => exact ih.trans hstep.calm

/-- A caller that has not blocked stays so while others act. -/
theorem CanTake.calm (h : CanTake μ s caller) (hc : Calm μ s s') : CanTake μ s' caller where
  sending := (hc.sending caller).trans h.sending
  receiving := hc.receiving caller h.receiving
  noEndpoint := (hc.noEndpoint caller).trans h.noEndpoint
  alive := (hc.alive caller).mpr h.alive
  slot := by
    rcases hc.slot with htorn | hs
    · exact .inl htorn
    · exact h.slot.imp_right (hs caller h.receiving).trans

/-- `caller` is in a call that may end in a receive from `srcE`: if it is blocked, then
in the send of a SENDREC to `srcE`. -/
structure InCall (μ : Mode) (s : State) (caller : Slot) (srcE : Int) : Prop where
  receiving : s.rtsIsset caller rtsReceiving = false
  noEndpoint : s.rtsIsset caller rtsNoEndpoint = false
  alive : s.Alive caller
  slot : μ.tornTable ∨ s.mfIsset caller mfDelivermsg = false
  sendto : s.rtsIsset caller rtsSending = true →
    (s.proc caller).pSendtoE = srcE ∧ srcE ≠ endptAny

theorem CanTake.inCall (h : CanTake μ s caller) : InCall μ s caller srcE :=
  ⟨h.receiving, h.noEndpoint, h.alive, h.slot, fun hsend => nomatch h.sending.symm.trans hsend⟩

theorem InCall.calm (h : InCall μ s caller srcE) (hc : Calm μ s s') : InCall μ s' caller srcE where
  receiving := hc.receiving caller h.receiving
  noEndpoint := (hc.noEndpoint caller).trans h.noEndpoint
  alive := (hc.alive caller).mpr h.alive
  slot := by
    rcases hc.slot with htorn | hs
    · exact .inl htorn
    · exact h.slot.imp_right (hs caller h.receiving).trans
  sendto hsend := by
    rw [hc.sendto caller]
    exact h.sendto ((hc.sending caller).symm.trans hsend)

theorem Names.calm (h : Names μ s e i) (hc : Calm μ s s') : Names μ s' e i :=
  ⟨h.nr, (hc.endpoint i).trans h.endpoint, h.alive.imp_right (hc.alive i).mpr⟩

/-! ## Sound tables -/

/-- A free slot has no other flag, and the queue of a process that can receive leads
to slots that are not free. -/
structure State.Sound (s : State) : Prop where
  free : ∀ i, s.rtsIsset i rtsSlotFree = true → (s.proc i).pRtsFlags = rtsSlotFree
  queue : ∀ {caller src : Slot} {test : Slot → Bool} {xpp : Ref Slot Slot},
    s.rtsIsset caller rtsNoEndpoint = false → s.Alive caller →
    s.callerLinks.seek test (nrSlots + 1) (.head caller) = some xpp →
    s.callerLinks.get xpp = some src → s.Alive src

/-- Every state that steps lead to is sound, unless the mode needs no such thing. -/
def Good (μ : Mode) (s : State) : Prop :=
  μ.zombie ∧ μ.tornTable ∨ ∀ t, Steps μ s t → t.Sound

theorem good_any (s : State) : Good .any s := .inl ⟨trivial, trivial⟩

theorem Good.mono {t : State} (h : Good μ s) (hst : Steps μ s t) : Good μ t := by
  rcases h with h | h
  · exact .inl h
  · exact .inr fun u hu => h u (hst.trans hu)

theorem Good.sound (h : Good μ s) : μ.zombie ∧ μ.tornTable ∨ s.Sound := by
  rcases h with h | h
  · exact .inl h
  · exact .inr (h s .refl)

theorem State.Sound.alive (h : s.Sound) (hi : s.isemptyp i = false) : s.Alive i := by
  by_contra hfree
  have hset : s.rtsIsset i rtsSlotFree = true := by simpa [Alive] using hfree
  have hflags := h.free i hset
  simp [isemptyp, hflags] at hi

theorem Good.live (h : Good μ s) (hi : s.isemptyp i = false) : μ.zombie ∨ s.Alive i := by
  rcases h.sound with hmode | hsound
  · exact .inl hmode.1
  · exact .inr (hsound.alive hi)

/-- A valid endpoint names its slot. -/
theorem Good.names (h : Good μ s) (hi : s.isokendpt e = some i) : Names μ s e i := by
  obtain ⟨hnr, hempty, hep⟩ := (isokendpt_eq_some_iff s i).mp hi
  exact ⟨hnr, hep, h.live hempty⟩

end Minix.Kernel
