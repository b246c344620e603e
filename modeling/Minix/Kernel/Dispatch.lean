/-
  Kernel/Dispatch.lean --- the default scheduler runs a process of the highest priority.

  `schedcheck` keeps the current process as long as it can run and does not look at the
  queues then.  That it still runs a process of the highest priority depends on
  `enqueue`, which preempts the current process whenever a process of a higher priority
  becomes ready.  The comparison is made with the priority that the current process has
  at that time; so the current process must not get another priority while it is the
  current one, and it gets one only in `enqueue`, if it blocks and is released again.

  The kernel is entered from the current process and left through `schedcheck`.  In
  between it may block the current process, but does not release it: what it releases
  are processes that are blocked by a flag of a certain mask, and the current process,
  if it is blocked, is also blocked by another flag (`Held`).
-/
import Minix.Kernel.DeliverySlot
import Minix.Kernel.EarliestDeadline

set_option autoImplicit false

namespace Minix.Kernel

open Minix.Foundation Relation State

variable {s s' : State} {mask f : BitVec 16}

namespace State

/-- If the current process can be preempted and is not, no ready process has a higher
priority. -/
def Strict (s : State) : Prop :=
  s.Preemptible s.procPtr → s.rtsIsset s.procPtr rtsPreempted = false →
    ∀ j, (s.proc j).pRtsFlags = 0#16 → (s.proc s.procPtr).pPriority ≤ (s.proc j).pPriority

/-- The current process is not blocked by flags of the mask alone. -/
def Held (s : State) (mask : BitVec 16) : Prop :=
  clearBits (s.proc s.procPtr).pRtsFlags mask = 0#16 → (s.proc s.procPtr).pRtsFlags = 0#16

theorem held_of_runnable (h : s.procIsRunnable s.procPtr = true) {mask : BitVec 16} :
    s.Held mask := fun _ => by simpa [procIsRunnable] using h

/-- A flag outside the mask holds the current process. -/
theorem held_of_isSet (hf : f ≠ 0#16) (hd : f &&& mask = 0#16)
    (h : s.rtsIsset s.procPtr f = true) : s.Held mask := by
  intro hzero
  have hset : isSet (clearBits (s.proc s.procPtr).pRtsFlags mask) f = true :=
    (isSet_clearBits_of_disjoint hd).trans h
  rw [hzero, isSet_zero hf] at hset
  simp at hset

end State

/-! ## Changes of the scheduler's data -/

namespace State.Strict

variable {s s' : State}

theorem of_fixed (h : ¬ s.Preemptible s.procPtr) : s.Strict := fun hpre => absurd hpre h

theorem same (h : s.Strict) (hs : SameSched s s') : s'.Strict := by
  intro hpre hnot j hj
  rw [hs.procPtr] at hpre hnot ⊢
  rw [Preemptible, hs.sFlags] at hpre
  rw [rtsIsset, hs.flags] at hnot
  rw [hs.flags] at hj
  rw [hs.priority, hs.priority]
  exact h hpre hnot j hj

/-- Blocking a process makes nobody ready. -/
theorem rtsSet (h : s.Strict) (rp : Slot) (hf : f ≠ 0#16) : (s.rtsSet rp f).Strict := by
  have hunlinked := s.unlinked_rtsSet rp f
  have hpri : ∀ i, ((s.rtsSet rp f).proc i).pPriority = (s.proc i).pPriority := fun i =>
    (frame_proc Proc.pPriority hunlinked i rfl).trans
      (s.modProc_congr rp Proc.pPriority rfl i)
  have hflags := fun i : Slot =>
    frame_congr (fun t => (t.privOf i).sFlags) (unsched_rtsSet s rp f) rfl
  intro hpre hnot j hj
  rw [rtsSet_procPtr] at hpre hnot ⊢
  rw [Preemptible, hflags] at hpre
  rw [hpri, hpri]
  rw [flags_rtsSet] at hj
  split at hj
  · exact absurd hj (or_ne_zero hf)
  refine h hpre ?_ j hj
  rw [rtsIsset, flags_rtsSet] at hnot
  split_ifs at hnot with hcur
  · rw [rtsIsset, hcur]
    by_contra hset
    rw [isSet_or_of_isSet f (by simpa using hset)] at hnot
    simp at hnot
  · exact hnot

/-- A process that joins a queue preempts the current one if its priority is higher. -/
theorem enqueue {rp : Slot} (hne : rp ≠ s.procPtr)
    (h : s.Preemptible s.procPtr → s.rtsIsset s.procPtr rtsPreempted = false →
      ∀ j, j ≠ rp → (s.proc j).pRtsFlags = 0#16 →
        (s.proc s.procPtr).pPriority ≤ (s.proc j).pPriority) : (s.enqueue rp).Strict := by
  have hunlinked := unlinked_enqueue s rp
  have hsched := unsched_enqueue s rp
  have hptr : (s.enqueue rp).procPtr = s.procPtr :=
    frame_congr procPtr hsched rfl
  have hpriv := fun i : Slot =>
    frame_congr (fun t => (t.privOf i).sFlags) hsched rfl
  have hpri : ∀ i, ((s.enqueue rp).proc i).pPriority = ((s.modProc rp Proc.sched).proc i).pPriority := by
    intro i
    refine (frame_proc Proc.pPriority hunlinked i rfl).trans ?_
    unfold requeued
    dsimp only
    split
    · exact modProc_congr _ _ Proc.pPriority rfl i
    · rfl
  have hflags : ∀ i, ((s.enqueue rp).proc i).pRtsFlags = ((s.requeued rp).proc i).pRtsFlags :=
    fun i => frame_proc Proc.pRtsFlags hunlinked i rfl
  intro hpre hnot j hj
  rw [hptr] at hpre hnot ⊢
  rw [Preemptible, hpriv] at hpre
  rw [hpri, hpri, modProc_proc_of_ne s rp _ hne.symm]
  rw [rtsIsset, hflags] at hnot
  rw [hflags] at hj
  unfold requeued at hnot hj
  dsimp only at hnot hj
  split_ifs at hnot with hnope
  · -- the current process has been preempted
    rw [modProc_proc_self] at hnot
    cases hnot.symm.trans (isSet_or_self _ _)
  · rw [if_neg hnope] at hj
    have hcur : (s.modProc rp Proc.sched).proc s.procPtr = s.proc s.procPtr :=
      modProc_proc_of_ne s rp _ hne.symm
    rw [hcur] at hnot
    by_cases hjrp : j = rp
    · subst hjrp
      by_contra hlt
      refine hnope ?_
      have hpriv' : isSet ((s.modProc j Proc.sched).privOf s.procPtr).sFlags preemptible = true := by
        rw [privOf, hcur]
        exact hpre
      simp only [preempts, modProc_procPtr, hpriv', hcur, Bool.and_true,
        decide_eq_true_eq]
      exact lt_of_not_ge hlt
    · rw [modProc_proc_of_ne s rp _ hjrp] at hj ⊢
      exact h hpre hnot j hjrp hj

/-- Releasing a process, unless it is the current one that becomes ready. -/
theorem rtsUnset (h : s.Strict) {rp : Slot} (hd : rtsPreempted &&& f = 0#16)
    (hcur : rp = s.procPtr → clearBits (s.proc rp).pRtsFlags f = 0#16 →
      (s.proc rp).pRtsFlags = 0#16) : (s.rtsUnset rp f).Strict := by
  have hkeep : ∀ {α : Type} (k : Proc → α), (∀ p g, k (p.setRts g) = k p) → ∀ i,
      k ((s.modProc rp fun p => p.setRts (clearBits p.pRtsFlags f)).proc i) = k (s.proc i) :=
    fun k hk i => s.modProc_congr rp k (hk _ _) i
  have hpriv : ∀ i, (s.modProc rp fun p => p.setRts (clearBits p.pRtsFlags f)).privOf i =
      s.privOf i := fun i => by
    rw [privOf, hkeep Proc.pPriv fun _ _ => rfl]
    rfl
  have hpre : ∀ i, (s.modProc rp fun p => p.setRts (clearBits p.pRtsFlags f)).rtsIsset i
      rtsPreempted = s.rtsIsset i rtsPreempted := fun i =>
    s.modProc_congr rp (fun p => isSet p.pRtsFlags rtsPreempted)
      (f := fun p => p.setRts (clearBits p.pRtsFlags f)) (isSet_clearBits_of_disjoint hd) i
  unfold State.rtsUnset
  dsimp only
  split_ifs with hready
  · simp only [procIsRunnable, Bool.and_eq_true, Bool.not_eq_true', beq_eq_false_iff_ne,
      beq_iff_eq, modProc_proc_self] at hready
    have hne : rp ≠ s.procPtr := fun heq => hready.1 (hcur heq hready.2)
    refine enqueue hne fun hpre' hnot j hj hzero => ?_
    rw [modProc_procPtr] at hpre' hnot ⊢
    rw [Preemptible, hpriv] at hpre'
    rw [hpre] at hnot
    rw [modProc_proc_of_ne s rp _ hj] at hzero ⊢
    rw [hkeep Proc.pPriority fun _ _ => rfl]
    exact h hpre' hnot j hzero
  · intro hpre' hnot j hzero
    rw [modProc_procPtr] at hpre' hnot ⊢
    rw [Preemptible, hpriv] at hpre'
    rw [hpre] at hnot
    rw [hkeep Proc.pPriority fun _ _ => rfl, hkeep Proc.pPriority fun _ _ => rfl]
    refine h hpre' hnot j ?_
    by_cases hj : j = rp
    · subst hj
      by_contra hblocked
      rw [modProc_proc_self] at hzero
      simp [procIsRunnable, hblocked, hzero] at hready
    · rwa [modProc_proc_of_ne s rp _ hj] at hzero

end State.Strict

/-! ## Kernel code that releases processes -/

namespace State

variable {s s' : State} {mask : BitVec 16}

theorem Held.same (h : s.Held mask) (hs : SameSched s s') : s'.Held mask := by
  rw [Held, hs.procPtr, hs.flags]
  exact h

/-- Releasing processes does not release the current process. -/
theorem Held.rtsUnset (h : s.Held mask) (hpre : rtsPreempted &&& mask = 0#16) {rp : Slot}
    (hf : isSet mask f = true) : (s.rtsUnset rp f).Held mask := by
  rcases s.flags_rtsUnset rp with hflags | ⟨_, _, hflags⟩
  · rw [Held, rtsUnset_procPtr, hflags]
    split_ifs with hcur
    · rw [clearBits_clearBits_of_isSet hf, ← hcur]
      intro hzero
      rw [h hzero, clearBits_zero]
    · exact h
  · refine held_of_isSet (f := rtsPreempted) (by decide) hpre ?_
    rw [rtsUnset_procPtr, rtsIsset, hflags]
    exact isSet_or_self _ _

theorem Held.rtsSet (h : s.Held mask) {rp : Slot} (hf : f ≠ 0#16)
    (hd : f &&& mask = 0#16) : (s.rtsSet rp f).Held mask := by
  by_cases hcur : s.procPtr = rp
  · refine held_of_isSet hf hd ?_
    rw [rtsSet_procPtr, rtsIsset, flags_rtsSet, if_pos hcur]
    exact isSet_or_self _ _
  · rw [Held, rtsSet_procPtr, flags_rtsSet, if_neg hcur]
    exact h

theorem Held.tame (h : s.Held mask) (hpre : rtsPreempted &&& mask = 0#16) (hs : Tame mask s s') :
    s'.Held mask := by
  cases hs with
  | same hs => exact h.same hs
  | set rp hf hd => exact h.rtsSet hf hd
  | unset rp hf => exact h.rtsUnset hpre hf

variable (h : s.Strict) (hheld : s.Held mask) (hpre : rtsPreempted &&& mask = 0#16)
include h hheld hpre

theorem Strict.tame (hs : Tame mask s s') : s'.Strict := by
  cases hs with
  | same hs => exact h.same hs
  | set rp hf _ => exact h.rtsSet rp hf
  | unset rp hf =>
    rename_i f
    have hd : rtsPreempted &&& f = 0#16 := by
      rw [BitVec.and_comm] at hpre ⊢
      exact disjoint_of_isSet hf hpre
    refine h.rtsUnset hd fun hcur hzero => ?_
    rw [hcur] at hzero ⊢
    refine hheld ?_
    rw [← clearBits_clearBits_of_isSet hf, hzero, clearBits_zero]

theorem Strict.tames (hs : Tames mask s s') : s'.Strict ∧ s'.Held mask := by
  induction hs with
  | refl => exact ⟨h, hheld⟩
  | tail _ hstep ih => exact ⟨ih.1.tame ih.2 hpre hstep, ih.2.tame hpre hstep⟩

end State

/-! ## Calls -/

namespace State.Strict

variable {s : State}

variable (h : s.Strict)
include h

theorem tamesCall (hheld : s.Held callMask)
    (hs : Tames callMask s s') : s'.Strict ∧ s'.Held callMask := h.tames hheld (by decide) hs

theorem holds (hs : ReflTransGen Hold s s') : s'.Strict := by
  induction hs with
  | refl => exact h
  | tail _ hstep ih =>
    cases hstep with
    | same hsame => exact ih.same hsame
    | set rp hf _ => exact ih.rtsSet rp hf

/-- The caller of a call is not released before it blocks, and nobody is released after that. -/
theorem call (hrun : s.procIsRunnable s.procPtr = true) (hcall : CallRun .any s s') : s'.Strict := by
  obtain ⟨t, hcalls, hblocks⟩ := hcall
  exact (h.tamesCall (held_of_runnable hrun) (Along.run hcalls).2).1.holds (Along.run hblocks).2

/-! ### Signals, interrupts and the work of `schedcheck` -/

/-- A signal stops the current process before PM is told. -/
theorem causeSig_self (sig : Nat) : (s.causeSig s.procPtr sig).Strict := by
  unfold causeSig
  split
  · exact h.same SameSched.stop
  split
  · exact h
  have hpend := h.same (SameSched.modPending s s.procPtr fun p => p.pPending ||| sigbit sig)
  dsimp only
  split
  · exact hpend
  have hset := hpend.rtsSet s.procPtr (f := rtsSignaled ||| rtsSigPending) (by decide)
  refine (hset.tamesCall ?_ (Along.run (lights_sendSig (μ := .any) _ _ _)).2).1
  refine held_of_isSet (f := rtsSignaled ||| rtsSigPending) (by decide) (by decide) ?_
  rw [rtsSet_procPtr, rtsIsset, flags_rtsSet, modProc_procPtr, if_pos rfl]
  exact isSet_or_self _ _

theorem delivermsg_self (mapped : Bool) : (s.delivermsg s.procPtr mapped).2.Strict := by
  unfold delivermsg
  split
  · refine h.same ((SameSched.modProc ?_).trans SameSched.record)
    exact ⟨rfl, rfl, rfl, rfl, rfl, rfl⟩
  unfold vmSuspend
  dsimp only
  have hset := h.rtsSet s.procPtr (f := rtsVmrequest) (by decide)
  have hheld : (s.rtsSet s.procPtr rtsVmrequest).Held rtsReceiving := by
    refine held_of_isSet (f := rtsVmrequest) (by decide) (by decide) ?_
    rw [rtsSet_procPtr, rtsIsset, flags_rtsSet, if_pos rfl]
    exact isSet_or_self _ _
  generalize s.rtsSet s.procPtr rtsVmrequest = t at hset hheld ⊢
  have hreq : SameSched t (t.modProc s.procPtr fun p =>
      { p with
        vmTarget := (t.proc s.procPtr).pEndpoint
        vmType := .delivermsg
        vmNextrequestor := t.vmrequest }) :=
    SameSched.modProc ⟨rfl, rfl, rfl, rfl, rfl, rfl⟩
  split
  · refine Strict.same ?_ (SameSched.quiet rfl)
    exact ((hset.same hreq).tames (hheld.same hreq) (by decide)
      (Along.run (lights_miniNotify_along (μ := .any) _ (by decide) _ _)).2).1
  · exact (hset.same hreq).same (SameSched.quiet rfl)

theorem workOff (hrun : s.procIsRunnable s.procPtr = true) {mapped : Bool}
    {deferred : Trap} : (s.workOff mapped deferred).2.Strict := by
  have hmisc : ∀ (t : State) (f : Proc → BitVec 16),
      SameSched t (t.modProc t.procPtr fun p => p.setMisc (f p)) :=
    fun t f => SameSched.modProc ⟨rfl, rfl, rfl, rfl, rfl, rfl⟩
  unfold State.workOff
  dsimp only
  split
  · exact h.delivermsg_self mapped
  split
  · have hcall : CallRun .any s (s.trap deferred) := s.run_trap (good_any s)
      (s.canTake_of_runnable hrun (.inl trivial)) (.inl trivial) (.inl trivial)
    have htrap := h.call hrun hcall
    have hptr : (s.trap deferred).procPtr = s.procPtr := hcall.steps.sched.procPtr
    dsimp only
    split
    · rw [← hptr]
      exact (htrap.same (hmisc _ fun p => clearBits p.pMiscFlags mfSigDelay)).causeSig_self _
    · exact htrap
  · split
    · split
      · exact h
      · exact (h.same (hmisc s fun p =>
          clearBits p.pMiscFlags (mfScTrace ||| mfScActive))).causeSig_self _
    · exact h.same (hmisc s fun p => clearBits p.pMiscFlags mfScActive)

end State.Strict

/-! ## Picking a process -/

/-- A process for which the loop breaks can still run. -/
theorem State.workOff_break_runnable {mapped : Bool} {deferred : Trap}
    (hdone : (s.workOff mapped deferred).1 = true) (hrun : s.procIsRunnable s.procPtr = true) :
    (s.workOff mapped deferred).2.procIsRunnable (s.workOff mapped deferred).2.procPtr = true := by
  rcases (workOff_break hdone).2 with heq | heq
  · rw [heq]
    exact hrun
  · rw [heq]
    exact (s.modProc_congr s.procPtr (fun p => p.pRtsFlags == 0#16)
      (f := fun p => p.setMisc (clearBits p.pMiscFlags mfScActive)) rfl s.procPtr).trans hrun

/-- The process that the default scheduler picks is the head of the first queue that is not
empty. -/
theorem State.strict_pickNew (hready : ReadyInv s) (htasks : TasksFixed s)
    (htype : s.schedType = .roundRobin) {rand : Nat} : (s.pickNew rand).2.Strict := by
  have hreq := hready.requeueCurrent
  have htimers := SameTimers.requeueCurrent s
  have hpick : s.requeueCurrent.pickProc rand = s.requeueCurrent.pickRoundRobin := by
    rw [pickProc, htimers.schedType, htype]
  have herase := s.requeueCurrent.erase_pickProc rand
  obtain ⟨Q, hQ⟩ := hreq.rep
  unfold pickNew
  rcases hres : s.requeueCurrent.pickProc rand with ⟨found, s1⟩
  rw [hres] at herase
  have hsame : ∀ {α : Type} (k : Proc → α), (∀ p : Proc, k p.erase = k p) → ∀ i,
      k (s1.proc i) = k (s.requeueCurrent.proc i) := fun k hk i =>
    frame_congr (fun t => k (t.proc i)) herase (funext fun t => hk (t.proc i))
  cases found with
  | none =>
    have htasks' : TasksFixed (({ s1 with procPtr := idleSlot }).bill idleSlot) :=
      (((htasks.same htimers).same (SameTimers.quiet herase)).same
        SameTimers.setProcPtr).same (SameTimers.quiet (erase_bill _ _))
    refine Strict.of_fixed (htasks' _ ?_)
    rw [frame_congr procPtr (erase_bill { s1 with procPtr := idleSlot } idleSlot) rfl]
    exact show idleSlot.val < 4 by decide
  | some rp =>
    rw [hpick, pickRoundRobin] at hres
    rcases hfirst : s.requeueCurrent.firstReady allQueues with _ | ⟨q, head⟩
    · rw [hfirst] at hres
      cases congrArg Prod.fst hres
    rw [hfirst] at hres
    have hhead : head = rp := Option.some.inj (congrArg Prod.fst hres)
    subst hhead
    intro _ _ j hj
    dsimp only at hj ⊢
    rw [hsame Proc.pRtsFlags fun _ => rfl] at hj
    rw [hsame Proc.pPriority fun _ => rfl, hsame Proc.pPriority fun _ => rfl]
    have hmem : head ∈ Q q := by
      have hlist := (firstReady_mem hfirst).2
      rw [rdyHead_of_path hQ.path] at hlist
      exact List.mem_of_head? hlist
    rw [((hQ.mem q head).mp hmem).2]
    by_contra hlt
    have hnone := firstReady_lt (by decide) hfirst (s.requeueCurrent.proc j).pPriority ?_
      (lt_of_not_ge hlt)
    · rw [rdyHead_of_path hQ.path] at hnone
      have hjmem := (hQ.mem _ j).mpr ⟨hj, rfl⟩
      rw [List.head?_eq_none_iff.mp hnone] at hjmem
      exact absurd hjmem List.not_mem_nil
    · have hrange := hreq.priority j
      simp only [allQueues, List.mem_cons, List.not_mem_nil, or_false]
      omega

/-! ## While a kernel task runs -/

/-- The current process, the scheduler and the privileges of the kernel tasks are the same. -/
structure SameTasks (s s' : State) : Prop where
  procPtr : s'.procPtr = s.procPtr
  schedType : s'.schedType = s.schedType
  sFlags : ∀ i : Slot, i.val < 4 → (s'.privOf i).sFlags = (s.privOf i).sFlags

/-- Forks are into slots of user processes. -/
def UserFork (_ : State) : Deed → Prop
  | .fork _ rpc => 4 ≤ rpc.val
  | _ => True

namespace SameTasks

variable {s s' : State}

theorem trans {s'' : State} (h : SameTasks s s') (h' : SameTasks s' s'') : SameTasks s s'' :=
  ⟨h'.procPtr.trans h.procPtr, h'.schedType.trans h.schedType,
    fun i hi => (h'.sFlags i hi).trans (h.sFlags i hi)⟩

theorem of_timers (h : SameTimers s s') (hptr : s'.procPtr = s.procPtr) : SameTasks s s' :=
  ⟨hptr, h.schedType, fun i _ => h.sFlags i⟩

theorem quiet (h : s'.erase = s.erase) : SameTasks s s' :=
  of_timers (SameTimers.quiet h) (frame_congr State.procPtr h rfl)

theorem steps {μ : Mode} (h : Steps μ s s') : SameTasks s s' :=
  of_timers (SameTimers.kernelSteps h) h.sched.procPtr

theorem of_unsched (h : s'.unsched = s.unsched) : SameTasks s s' :=
  ⟨frame_congr State.procPtr h rfl,
    frame_congr State.schedType h rfl,
    fun i _ => frame_congr (fun t => (t.privOf i).sFlags) h rfl⟩

theorem of_untimed (h : s'.untimed = s.untimed) : SameTasks s s' :=
  ⟨frame_congr State.procPtr h rfl,
    frame_congr State.schedType h rfl,
    fun i _ => frame_congr (fun t => (t.privOf i).sFlags) h rfl⟩

theorem modProc {s : State} {rp : Slot} {f : Proc → Proc}
    (hf : rp.val < 4 → (f (s.proc rp)).pPriv = (s.proc rp).pPriv) :
    SameTasks s (s.modProc rp f) := by
  refine ⟨rfl, rfl, fun i hi => ?_⟩
  rw [privOf, modProc_priv, modProc_proc]
  split_ifs with hirp
  · subst hirp
    rw [hf hi]
    rfl
  · rfl

theorem act (h : Act UserFork s s') : SameTasks s s' := by
  cases h with
  | clock h =>
    cases h with
    | sched hs => exact of_timers (SameTimers.step hs) (SchedSteps.procPtr (.single hs))
    | balance rp => exact of_timers SameTimers.balanceProc (s.procPtr_balanceProc)
    | _ => exact of_untimed (by simp)
  | place rp _ _ => exact modProc fun _ => rfl
  | fork ep sys lin _ _ huser => exact modProc fun hlt => absurd huser (Nat.not_le_of_lt hlt)
  | free rc =>
    exact (of_untimed (s.untimed_withdraw)).trans (of_unsched (unsched_rtsSetflags _ rc _))
  | unpriv sp =>
    refine ⟨rfl, rfl, fun i _ => ?_⟩
    simp only [privOf, modPriv_priv, modPriv_proc]
    split_ifs with heq
    · rw [← heq]
    · rfl
  | _ => exact of_untimed (by simp)

theorem acts (h : Acts UserFork s s') : SameTasks s s' :=
  run_keeps (P := SameTasks s) (fun _ _ ht hact => ht.trans (act hact)) ⟨rfl, rfl, fun _ _ => rfl⟩ h

end SameTasks

/-! ## Runs -/

/-- The kernel has been entered from the current process, which can run, or while the
processor was idle. -/
def State.Entered (s : State) : Prop :=
  s.procIsRunnable s.procPtr = true ∨ s.procPtr = idleSlot

instance (s : State) : Decidable s.Entered := inferInstanceAs (Decidable (_ ∨ _))

/-- How the kernel runs: it is entered from the current process by a call, an exception or
an interrupt, and left through `schedcheck`, which is the only one to choose a new process;
the kernel tasks do their work when they are the current process. -/
def DispatchRun (s : State) : Op → Prop
  | .rtsSet _ f => f ≠ 0#16
  | .rtsUnset _ f => s.Entered ∧ rtsPreempted &&& f = 0#16
  | .tick | .notify _ _ | .signal _ _ => s.Entered
  | .trap _ => s.procIsRunnable s.procPtr = true
  | .lockSend dstE _ => s.MayReply dstE
  | .clockTask | .balanceQueues => s.procPtr = clockSlot
  | .request _ (.privctl _ _) => False
  | .request _ (.fork _ slot _) => s.procPtr = systemSlot ∧ 0 ≤ slot
  | .request _ _ => s.procPtr = systemSlot
  | .schedcheck _ _ | .store _ _ _ => True
  | .rtsSetflags _ _ | .requeue | .dispatch _ | .clearEndpoint _ | .delivermsg _ _ => False

instance (s : State) (op : Op) : Decidable (DispatchRun s op) := by
  induction op using Op.casesOn <;> try induction ‹KernelCall› using KernelCall.casesOn
  all_goals delta DispatchRun; infer_instance

/-- What holds in every state of such a run. -/
structure DispatchInv (s : State) : Prop where
  ready : ReadyInv s
  tasks : TasksFixed s
  strict : s.schedType = .roundRobin → s.Strict

namespace DispatchInv

variable {s s' : State}

variable (h : DispatchInv s)
include h

theorem tasks_of_same (hs : SameTasks s s') : TasksFixed s' := by
  intro i hi
  rw [Preemptible, hs.sFlags i hi]
  exact h.tasks i hi

/-- While a kernel task is the current process, nothing has to be shown. -/
theorem task (hs : SameTasks s s') (hready : ReadyInv s')
    (hptr : s.procPtr.val < 4) : DispatchInv s' := by
  refine ⟨hready, h.tasks_of_same hs, fun _ => Strict.of_fixed ?_⟩
  rw [hs.procPtr]
  exact h.tasks_of_same hs _ hptr

theorem strict_of_same (hs : SameTasks s s') (hready : ReadyInv s')
    (hstrict : s.Strict → s'.Strict) : DispatchInv s' :=
  ⟨hready, h.tasks_of_same hs, fun htype => hstrict (h.strict (hs.schedType.symm.trans htype))⟩

/-- What releases only others keeps the invariant, and so does anything while the processor
is idle. -/
theorem entered (hin : s.Entered) (hs : SameTasks s s') (hready : ReadyInv s')
    (hstrict : s.Strict → s.procIsRunnable s.procPtr = true → s'.Strict) : DispatchInv s' := by
  rcases hin with hrun | hidle
  · exact h.strict_of_same hs hready fun hst => hstrict hst hrun
  · exact h.task hs hready (by rw [hidle]; decide)

theorem tames (hin : s.Entered) (hs : SameTasks s s') (hready : ReadyInv s')
    (htames : Tames callMask s s') : DispatchInv s' :=
  h.entered hin hs hready fun hst hrun =>
    (hst.tamesCall (held_of_runnable hrun) htames).1

theorem workOff (hrun : s.procIsRunnable s.procPtr = true) {mapped : Bool}
    {deferred : Trap} : DispatchInv (s.workOff mapped deferred).2 := by
  have hsteps := steps_workOff_any hrun mapped deferred
  exact h.strict_of_same (SameTasks.steps hsteps) (h.ready.kernelSteps hsteps) fun hst =>
    hst.workOff hrun

theorem pickNew {rand : Nat} : DispatchInv (s.pickNew rand).2 := by
  have htimers := SameTimers.pickNew s rand
  exact ⟨(h.ready.pickNew rand).1, h.tasks.same htimers, fun htype =>
    strict_pickNew h.ready h.tasks (htimers.schedType.symm.trans htype)⟩

theorem schedcheck {env : SchedEnv} {fuel : Nat} : DispatchInv (s.schedcheck env fuel).2 := by
  refine schedcheck_rule (P := DispatchInv) ?_ ?_ ?_ h fuel
  · intro t ht
    exact ht.strict_of_same (SameTasks.quiet rfl) (ht.ready.quiet rfl) fun hst =>
      hst.same SameSched.stop
  · exact fun t n ht hrun => ht.workOff hrun
  · exact fun t n ht => ⟨ht.pickNew, (ht.ready.pickNew _).2⟩

end DispatchInv

theorem DispatchRun.kernelRun {op : Op} (h : DispatchRun s op) : KernelRun s op := by
  cases op with
  | rtsSet rp f => exact h
  | rtsSetflags rp f | delivermsg rp mapped => exact absurd h id
  | trap t => exact h
  | lockSend dstE m => exact h
  | _ => trivial

theorem DispatchInv.op (h : DispatchInv s) {op : Op} (hop : DispatchRun s op) :
    DispatchInv (op.run s) := by
  have hready := h.ready.op op hop.kernelRun
  cases op with
  | rtsSet rp f => exact h.strict_of_same (.of_unsched (unsched_rtsSet s rp f)) hready fun hst => hst.rtsSet rp hop
  | rtsUnset rp f =>
    refine h.entered hop.1 (.of_unsched (unsched_rtsUnset s rp f)) hready fun hst hrun => ?_
    refine hst.rtsUnset hop.2 fun hcur _ => ?_
    rw [hcur]
    simpa [procIsRunnable] using hrun
  | schedcheck env fuel => exact h.schedcheck
  | trap t =>
    have hcall : CallRun .any s (s.trap t) := s.run_trap (good_any s)
      (s.canTake_of_runnable hop (.inl trivial)) (.inl trivial) (.inl trivial)
    exact h.strict_of_same (.steps hcall.steps) hready fun hst => hst.call hop hcall
  | store rp addr entry =>
    have herase := s.erase_modEntry rp addr fun _ => entry
    exact h.strict_of_same (.quiet herase) hready fun hst => hst.same (SameSched.quiet herase)
  | lockSend dstE m =>
    have hcall : CallRun .any s (s.lockSend dstE m).2 :=
      s.run_lockSend (good_any s) hop (.inl trivial) (.inl trivial)
    exact h.strict_of_same (.steps hcall.steps) hready fun hst => hst.call hop.1 hcall
  | tick =>
    exact h.tames hop (.steps (Op.steps_any (o := .tick) trivial)) hready
      (Along.run (s.lights_bspTimerIntHandler (μ := .any) (.inl trivial))).2
  | notify src dstE =>
    exact h.tames hop (.steps (Op.steps_any (o := .notify src dstE) trivial)) hready
      (Along.run (s.lights_miniNotify (μ := .any) src dstE)).2
  | signal rp sig =>
    exact h.tames hop (.steps (Op.steps_any (o := .signal rp sig) trivial)) hready
      (Along.run (s.lights_causeSig (μ := .any) (.inl trivial) sig)).2
  | clockTask =>
    have hclock : s.procPtr = clockSlot := hop
    exact h.task (.acts (s.acts_clockTask fun _ _ _ _ _ => trivial).acts) hready (hclock ▸ by decide)
  | balanceQueues =>
    have hclock : s.procPtr = clockSlot := hop
    exact h.task (.acts s.acts_balanceQueues.acts) hready (hclock ▸ by decide)
  | request caller call =>
    have hcaller : SameTasks s { s with whoP := caller } := .quiet rfl
    have hsystem : s.procPtr = systemSlot := by
      cases call with
      | privctl _ _ => exact absurd hop id
      | fork _ _ _ => exact hop.1
      | _ => exact hop
    refine h.task (hcaller.trans (.acts (KernelCall.acts ?_))) hready (hsystem ▸ by decide)
    cases call with
    | chdeadline _ _ => exact fun _ _ _ _ => ⟨trivial, fun _ => trivial⟩
    | privctl _ _ => exact hop
    | fork parentE slot env =>
      intro rpp rpc _ haddr
      have hslot : 0 ≤ slot := hop.2
      have hnr := procNr_of_procAddr haddr
      unfold procNr at hnr
      exact show 4 ≤ rpc.val by omega
    | _ => trivial
  | rtsSetflags _ _ | requeue | dispatch _ | clearEndpoint _ | delivermsg _ _ => exact absurd hop id

/-- At the start IDLE is the current process. -/
theorem DispatchInv.setScheduler (hready : ReadyInv s) (htasks : TasksFixed s)
    (hptr : s.procPtr.val < 4) {schedulerType : Int} : DispatchInv (s.setScheduler schedulerType) := by
  have hcur : (s.setScheduler schedulerType).procPtr = s.procPtr :=
    s.setScheduler_rule (P := fun t => t.procPtr = s.procPtr) fun _ => rfl
  have htasks' : TasksFixed (s.setScheduler schedulerType) := htasks.congr fun i => s.setScheduler_rule
    (P := fun t => (t.privOf i).sFlags = (s.privOf i).sFlags) fun _ => rfl
  refine ⟨hready.setScheduler, htasks', fun _ => State.Strict.of_fixed ?_⟩
  rw [hcur]
  exact htasks' _ hptr

theorem DispatchInv.reachable (h : Reachable DispatchRun s) : DispatchInv s := by
  obtain ⟨schedulerType, hrun⟩ := h
  refine hrun.invariant DispatchInv ?_ fun t op hinv hop => hinv.op hop
  refine setScheduler ReadyInv.boot (fun i hi hpre => ?_) (by decide +kernel)
  exact nomatch (EdfInv.boot_tasks i hi).symm.trans hpre

end Minix.Kernel
