/-
  Kernel/SchedStep.lean --- what kernel code can do to the scheduler's data.

  Seen from the scheduler, the elementary changes of the kernel are of few kinds: a
  flag is set or cleared with the macros, a flag is cleared directly while the process
  stays blocked, or nothing happens that the scheduler looks at.  An invariant of the
  scheduler only has to be kept by these kinds.  The timers count as the scheduler's:
  the deadline of a process decides about its queue.
-/
import Minix.Kernel.Step

set_option autoImplicit false

namespace Minix.Kernel

open Minix.Foundation Relation State

/-! ## Steps -/

/-- The scheduler's data are the same in both states. -/
structure SameSched (s s' : State) : Prop where
  links : s'.readyLinks = s.readyLinks
  tail : s'.rdyTail = s.rdyTail
  flags : ∀ i, (s'.proc i).pRtsFlags = (s.proc i).pRtsFlags
  priority : ∀ i, (s'.proc i).pPriority = (s.proc i).pPriority
  maxPriority : ∀ i, (s'.proc i).pMaxPriority = (s.proc i).pMaxPriority
  timer : ∀ tp, s'.timer tp = s.timer tp
  clockTimers : s'.clockTimers = s.clockTimers
  procPtr : s'.procPtr = s.procPtr
  schedType : s'.schedType = s.schedType
  sFlags : ∀ i, (s'.privOf i).sFlags = (s.privOf i).sFlags

/-- The entries agree on the fields the scheduler looks at. -/
structure Proc.SameSched (p p' : Proc) : Prop where
  link : p'.pNextready = p.pNextready
  flags : p'.pRtsFlags = p.pRtsFlags
  priority : p'.pPriority = p.pPriority
  maxPriority : p'.pMaxPriority = p.pMaxPriority
  deadline : p'.pDeadline = p.pDeadline
  priv : p'.pPriv = p.pPriv

/-- One kind of change to the scheduler's data. -/
inductive SchedStep : State → State → Prop
  | same {s s' : State} (h : SameSched s s') : SchedStep s s'
  | set (s : State) (rp : Slot) {f : BitVec 16} (hf : f ≠ 0#16)
      (hd : (rtsPreempted ||| rtsSlotFree) &&& f = 0#16) : SchedStep s (s.rtsSet rp f)
  | unset (s : State) (rp : Slot) {f : BitVec 16}
      (hd : (rtsPreempted ||| rtsSlotFree) &&& f = 0#16) : SchedStep s (s.rtsUnset rp f)
  | mask (s : State) (rp : Slot) {f : BitVec 16}
      (hd : (rtsPreempted ||| rtsSlotFree) &&& f = 0#16)
      (hne : clearBits (s.proc rp).pRtsFlags f ≠ 0#16) :
      SchedStep s (s.modProc rp fun p => p.setRts (clearBits p.pRtsFlags f))

/-- A sequence of such changes. -/
abbrev SchedSteps : State → State → Prop := ReflTransGen SchedStep

/-- A change that releases nobody. -/
inductive Hold : State → State → Prop
  | same {s s' : State} (h : SameSched s s') : Hold s s'
  | set (s : State) (rp : Slot) {f : BitVec 16} (hf : f ≠ 0#16)
      (hd : (rtsPreempted ||| rtsSlotFree) &&& f = 0#16) : Hold s (s.rtsSet rp f)

namespace SameSched

variable {s s' : State}

theorem trans {s'' : State} (h : SameSched s s') (h' : SameSched s' s'') : SameSched s s'' :=
  ⟨h'.links.trans h.links, h'.tail.trans h.tail,
    fun i => (h'.flags i).trans (h.flags i), fun i => (h'.priority i).trans (h.priority i),
    fun i => (h'.maxPriority i).trans (h.maxPriority i),
    fun tp => (h'.timer tp).trans (h.timer tp), h'.clockTimers.trans h.clockTimers,
    h'.procPtr.trans h.procPtr, h'.schedType.trans h.schedType,
    fun i => (h'.sFlags i).trans (h.sFlags i)⟩

theorem steps (h : SameSched s s') : SchedSteps s s' := .single (.same h)

/-- A write to a table entry that leaves the scheduler's fields alone. -/
theorem modProc {s : State} {rp : Slot} {f : Proc → Proc}
    (hf : (s.proc rp).SameSched (f (s.proc rp))) : SameSched s (s.modProc rp f) := by
  refine ⟨readyLinks_modProc s hf.link, rfl, modProc_congr s rp _ hf.flags,
    modProc_congr s rp _ hf.priority, modProc_congr s rp _ hf.maxPriority, ?_,
    rfl, rfl, rfl, ?_⟩
  · intro tp
    cases tp with
    | deadline i => exact modProc_congr s rp (fun p => p.pDeadline) hf.deadline i
    | alarm sp => rfl
    | queue => rfl
  · intro i
    have hpriv := modProc_congr s rp (fun p => p.pPriv) hf.priv i
    simp only [privOf, hpriv, modProc_priv]

/-- What passing messages writes is of no concern to the scheduler. -/
theorem of_unmessaged (h : s'.unmessaged = s.unmessaged) : SameSched s s' where
  links := frame_congr readyLinks h rfl
  tail := frame_congr rdyTail h rfl
  flags i := frame_proc Proc.pRtsFlags h i rfl
  priority i := frame_proc Proc.pPriority h i rfl
  maxPriority i := frame_proc Proc.pMaxPriority h i rfl
  timer tp := by
    cases tp with
    | deadline i => exact frame_proc Proc.pDeadline h i rfl
    | alarm sp => exact frame_congr (fun t => (t.priv sp).sAlarmTimer) h rfl
    | queue => exact frame_congr queueTimer h rfl
  clockTimers := frame_congr State.clockTimers h rfl
  procPtr := frame_congr State.procPtr h rfl
  schedType := frame_congr State.schedType h rfl
  sFlags i := frame_congr (fun t => (t.privOf i).sFlags) h rfl

theorem quiet (h : s'.erase = s.erase) : SameSched s s' := of_unmessaged (unmessaged_of_erase h)

theorem stop {s : State} {h : Halt} : SameSched s (s.stop h) := quiet rfl

theorem record {s : State} {e : Event} : SameSched s (s.record e) := of_unmessaged rfl

/-- The pending signals are of no concern to the scheduler. -/
theorem modPending (s : State) (rp : Slot) (g : Proc → BitVec 32) :
    SameSched s (s.modProc rp fun p => { p with pPending := g p }) :=
  modProc ⟨rfl, rfl, rfl, rfl, rfl, rfl⟩

end SameSched

/-! ## The ready queues under steps -/

namespace ReadyInv

variable {s s' : State}

variable (h : ReadyInv s)
include h

theorem same (hs : SameSched s s') : ReadyInv s' :=
  h.congr hs.links hs.tail (fun i => by rw [hs.flags i]) hs.priority hs.maxPriority

/-- A change of the flag word of a process that is blocked before and after. -/
theorem modFlags {rp : Slot} (hold : (s.proc rp).pRtsFlags ≠ 0#16)
    {g : Proc → BitVec 16} (hnew : g (s.proc rp) ≠ 0#16) :
    ReadyInv (s.modProc rp fun p => p.setRts (g p)) := by
  refine h.congr (readyLinks_modProc s rfl) rfl ?_ (modProc_congr s rp _ rfl)
    (modProc_congr s rp _ rfl)
  intro i
  rw [modProc_proc]
  split_ifs with hi
  · rw [hi]
    exact ⟨fun hz => absurd hz hnew, fun hz => absurd hz hold⟩
  · rfl

theorem step (hs : SchedStep s s') : ReadyInv s' := by
  cases hs with
  | same hs => exact h.same hs
  | set rp hf _ => exact h.rtsSet hf
  | unset rp _ => exact h.rtsUnset rp _
  | mask rp _ hne =>
    refine h.modFlags ?_ hne
    intro hz
    rw [hz, clearBits_zero] at hne
    exact hne rfl

theorem steps (hs : SchedSteps s s') : ReadyInv s' := by
  induction hs with
  | refl => exact h
  | tail _ hstep ih => exact ih.step hstep

end ReadyInv

/-! ## Kernel steps, seen from the scheduler -/

namespace State

variable (s : State)

theorem sameSched_queueMess {ep : Int} {msg : Option Message} {dst : Slot} :
    SameSched s (s.queueMess ep msg dst).2 := .of_unmessaged (s.unmessaged_queueMess)

theorem sameSched_setCallerLink {r : Ref Slot Slot} {v : Option Slot} :
    SameSched s (s.setCallerLink r v) := .of_unmessaged (s.unmessaged_setCallerLink)

theorem holds_blockSender {caller dst : Slot} {dstE : Int} {msg : Message} :
    ReflTransGen Hold s (s.blockSender caller dst dstE msg) := by
  have hmark : ReflTransGen Hold s (s.markSending caller dstE msg) := by
    unfold markSending
    refine ((ReflTransGen.single (.same (.modProc ?_))).tail
      (.set _ caller (f := rtsSending) (by decide) (by decide))).tail (.same (.modProc ?_))
    all_goals exact ⟨rfl, rfl, rfl, rfl, rfl, rfl⟩
  unfold blockSender
  dsimp only
  split
  · exact hmark.tail (.same .stop)
  · refine hmark.tail (.same ?_)
    exact ((sameSched_setCallerLink _).trans (sameSched_setCallerLink _)).trans
      SameSched.record

end State

theorem Write.sched {μ : Mode} {s s' : State} (h : Write μ s s') : SchedSteps s s' := by
  cases h with
  | other h => exact (SameSched.of_unmessaged h).steps
  | set rp hf hd _ => exact .single (.set s rp hf (disjoint_of_isSet (by decide) hd))
  | unset rp hd => exact .single (.unset s rp (disjoint_of_isSet (by decide) hd))
  | mask rp hd hne => exact .single (.mask s rp (disjoint_of_isSet (by decide) hd) hne)
  | pend rp sigs _ => exact (SameSched.modPending s rp _).steps
  | signal rp _ _ =>
    exact (SameSched.modPending s rp _).steps.tail (.set _ rp (by decide) (by decide))
  | endksig rp _ => exact .single (.unset s rp (f := rtsSigPending) (by decide))
  | getksig rp _ =>
    exact (SameSched.modPending s rp _).steps.tail (.unset _ rp (f := rtsSignaled) (by decide))

/-- Every elementary change is a sequence of changes to the scheduler's data. -/
theorem Steps.sched {μ : Mode} {s s' : State} (h : Steps μ s s') : SchedSteps s s' := by
  replace h := h.writes
  induction h with
  | refl => exact .refl
  | tail _ hw ih => exact ih.trans hw.sched

/-- No step makes another process the current one. -/
theorem SchedSteps.procPtr {s s' : State} (h : SchedSteps s s') : s'.procPtr = s.procPtr := by
  induction h with
  | refl => rfl
  | tail _ hstep ih =>
    refine Eq.trans ?_ ih
    cases hstep with
    | same h => exact h.procPtr
    | set rp _ _ => exact rtsSet_procPtr _ rp
    | unset rp _ => exact rtsUnset_procPtr _ rp
    | mask rp _ _ => rfl

/-! ## Calls, seen from the scheduler -/

section Calls

variable {s s' : State} {mask f : BitVec 16} {μ : Mode} {rp : Slot} {R S : State → State → Prop}

/-- A change of the scheduler's data that releases only processes blocked by flags of the
mask, and blocks nobody by one. -/
inductive Tame (mask : BitVec 16) : State → State → Prop
  | same {s s' : State} (h : SameSched s s') : Tame mask s s'
  | set (s : State) (rp : Slot) {f : BitVec 16} (hf : f ≠ 0#16) (hd : f &&& mask = 0#16) :
      Tame mask s (s.rtsSet rp f)
  | unset (s : State) (rp : Slot) {f : BitVec 16} (hf : isSet mask f = true) :
      Tame mask s (s.rtsUnset rp f)

/-- A sequence of such changes. -/
abbrev Tames (mask : BitVec 16) : State → State → Prop := ReflTransGen (Tame mask)

/-- The flags by which a process is blocked in a call or by a request for memory. -/
def callMask : BitVec 16 := rtsReceiving ||| rtsSending ||| rtsVmrequest

/-- A step, with what it does to the scheduler's data. -/
def Along (R S : State → State → Prop) (s s' : State) : Prop := R s s' ∧ ReflTransGen S s s'

/-- Light changes and steps of a call that has not blocked its caller. -/
abbrev CallLights (μ : Mode) : State → State → Prop := ReflTransGen (Along (Light μ) (Tame callMask))

abbrev CallSteps (μ : Mode) : State → State → Prop := ReflTransGen (Along (Step μ) (Tame callMask))

/-- The steps by which a call blocks its caller. -/
abbrev Blocks (μ : Mode) : State → State → Prop := ReflTransGen (Along (Step μ) Hold)

/-- A call: at the end its caller may have blocked. -/
def CallRun (μ : Mode) (s s' : State) : Prop := ∃ t, CallSteps μ s t ∧ Blocks μ t s'

namespace Along

theorem run (h : ReflTransGen (Along R S) s s') : ReflTransGen R s s' ∧ ReflTransGen S s s' := by
  induction h with
  | refl => exact ⟨.refl, .refl⟩
  | tail _ hstep ih => exact ⟨ih.1.tail hstep.1, ih.2.trans hstep.2⟩

theorem quiet (h : s'.erase = s.erase) : Along (Light μ) (Tame mask) s s' :=
  ⟨.quiet h, .single (.same (.quiet h))⟩

section

variable (s : State)

theorem unset {rp : Slot} (hd : rtsOwned &&& f = 0#16) (hm : isSet mask f = true) :
    Along (Light μ) (Tame mask) s (s.rtsUnset rp f) :=
  ⟨.unset s rp hd, .single (.unset s rp hm)⟩

theorem deliver (src dst : Slot) (m : Message) (h : s.willReceive dst (s.proc src).pEndpoint = true)
    (hm : isSet mask rtsReceiving = true) : Along (Light μ) (Tame mask) s
      ((s.queueMess (s.proc src).pEndpoint (some m) dst).2.rtsUnset dst rtsReceiving) :=
  ⟨.deliver s src dst m h, (ReflTransGen.single (.same (s.sameSched_queueMess))).tail (.unset _ dst hm)⟩

theorem fill {ep : Int} {m : Message} (h : CanTake μ s rp) :
    Along (Step μ) (Tame mask) s (s.queueMess ep (some m) rp).2 :=
  ⟨.fill s ep m h, .single (.same (s.sameSched_queueMess))⟩

end

theorem rest (h : s'.erase = s.erase) : Along (Step μ) Hold s s' := ⟨.light (.quiet h), .single (.same (.quiet h))⟩

theorem blockSend {s : State} {caller dst : Slot} {dstE : Int} (msg : Message) (h : MayBlockSend μ s caller dst dstE) :
    Along (Step μ) Hold s (s.blockSender caller dst dstE msg) :=
  ⟨.blockSend s msg h, s.holds_blockSender⟩

end Along

namespace CallLights

variable (h : CallLights μ s s')
include h

theorem lights : Lights μ s s' := (Along.run h).1

theorem calm : Calm μ s s' := h.lights.calm

theorem calls : CallSteps μ s s' := h.lift id fun _ _ hl => ⟨.light hl.1, hl.2⟩

end CallLights

theorem CallSteps.steps (h : CallSteps μ s s') : Steps μ s s' := (Along.run h).1

theorem CallSteps.run (h : CallSteps μ s s') : CallRun μ s s' := ⟨s', h, .refl⟩

theorem CallSteps.thenRun {t : State} (h : CallSteps μ s t) (h' : CallRun μ t s') : CallRun μ s s' := by
  obtain ⟨u, hcalls, hblocks⟩ := h'
  exact ⟨u, h.trans hcalls, hblocks⟩

theorem Blocks.run (h : Blocks μ s s') : CallRun μ s s' := ⟨s, .refl, h⟩

theorem CallRun.steps (h : CallRun μ s s') : Steps μ s s' := by
  obtain ⟨t, hcalls, hblocks⟩ := h
  exact hcalls.steps.trans (Along.run hblocks).1

theorem CallRun.quiet {t : State} (h : CallRun μ s t) (herase : s'.erase = t.erase) : CallRun μ s s' := by
  obtain ⟨u, hcalls, hblocks⟩ := h
  exact ⟨u, hcalls, hblocks.tail (.rest herase)⟩

theorem callLights_of_erase (h : s'.erase = s.erase) : CallLights μ s s' := .single (.quiet h)

theorem callLights_stop {s : State} {h : Halt} : CallLights μ s (s.stop h) := callLights_of_erase rfl

/-- A call that begins with a change of no concern. -/
theorem CallRun.after {s1 : State} (herase : s1.erase = s.erase) (hgood : Good μ s) (hcan : CanTake μ s rp)
    (h : Good μ s1 → CanTake μ s1 rp → CallRun μ s1 s') : CallRun μ s s' :=
  have hcalls : CallSteps μ s s1 := (callLights_of_erase herase).calls
  hcalls.thenRun (h (hgood.mono hcalls.steps) (hcan.calm (Calm.quiet herase)))

end Calls

end Minix.Kernel
