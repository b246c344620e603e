/-
  Kernel/DeadlineQueue.lean --- processes with a deadline are on queue 7.

  Only `sched` moves a process with a deadline to queue 7, and only `enqueue` calls
  `sched`.  `enqueue_head` puts a preempted process back on the queue it had, so the
  property has to hold of preempted processes too; and a process that is not on a queue
  may be preempted while it is the current one, so it has to hold of the current
  process as far as it can be preempted at all.
-/
import Minix.Kernel.DeadlineTimers
import Minix.Kernel.Entries

set_option autoImplicit false

namespace Minix.Kernel

open Minix.Foundation Relation State

variable {s : State} {rp : Slot} {f : BitVec 16} {μ : Mode}

/-- A process whose privileges say that it can be preempted. -/
def State.Preemptible (s : State) (rp : Slot) : Prop :=
  isSet (s.privOf rp).sFlags preemptible = true

/-- A process with a deadline has the priority of queue 7 if it is ready or preempted. -/
def Proc.Settled (p : Proc) : Prop :=
  0 < p.pDeadline.tmrExpTime → p.pRtsFlags = 0#16 ∨ isSet p.pRtsFlags rtsPreempted = true →
    p.pPriority = 7

/-- Processes with a deadline are on queue 7, apart from those in `off`, which are just
being moved. -/
structure DeadlineInv (s : State) (off : Slot → Prop) : Prop where
  settled : ∀ i, ¬ off i → (s.proc i).Settled
  current : ¬ off s.procPtr → s.Preemptible s.procPtr → 0 < s.expTime s.procPtr →
    (s.proc s.procPtr).pPriority = 7
  preempted : ∀ i, s.rtsIsset i rtsPreempted = true → i = s.procPtr ∧ s.Preemptible s.procPtr

/-- Kernel tasks are never preempted. -/
def TasksFixed (s : State) : Prop := ∀ i : Slot, i.val < 4 → ¬ s.Preemptible i

theorem TasksFixed.congr {s' : State} (h : TasksFixed s)
    (hs : ∀ i, (s'.privOf i).sFlags = (s.privOf i).sFlags) : TasksFixed s' := by
  intro i hi
  rw [Preemptible, hs i]
  exact h i hi

theorem TasksFixed.same {s' : State} (h : TasksFixed s) (hs : SameTimers s s') :
    TasksFixed s' := h.congr hs.sFlags

namespace DeadlineInv

variable {s s' : State} {off : Slot → Prop}

/-! ## Steps -/

section

variable (h : DeadlineInv s off)
include h

theorem congr (hflags : ∀ i, (s'.proc i).pRtsFlags = (s.proc i).pRtsFlags)
    (hpri : ∀ i, (s'.proc i).pPriority = (s.proc i).pPriority)
    (hexp : ∀ i, 0 < s'.expTime i → 0 < s.expTime i) (hptr : s'.procPtr = s.procPtr)
    (hpriv : ∀ i, (s'.privOf i).sFlags = (s.privOf i).sFlags) : DeadlineInv s' off := by
  have hpre : ∀ i, s'.Preemptible i ↔ s.Preemptible i := fun i => by
    simp only [Preemptible, hpriv i]
  refine ⟨?_, ?_, ?_⟩
  · intro i hi hpos
    rw [hflags i, hpri i]
    exact h.settled i hi (hexp i hpos)
  · rw [hptr, hpri, hpre]
    exact fun hoff hp hpos => h.current hoff hp (hexp _ hpos)
  · intro i hi
    rw [hptr, hpre]
    rw [rtsIsset, hflags i] at hi
    exact h.preempted i hi

theorem same (hs : SameSched s s') : DeadlineInv s' off :=
  h.congr hs.flags hs.priority
    (fun i hpos => lt_of_lt_of_eq hpos (congrArg Timer.tmrExpTime (hs.timer (.deadline i))))
    hs.procPtr hs.sFlags

/-- The links of the queues do not matter. -/
theorem unlinked (hs : s'.unlinked = s.unlinked) : DeadlineInv s' off :=
  h.congr (fun i => frame_proc Proc.pRtsFlags hs i rfl)
    (fun i => frame_proc Proc.pPriority hs i rfl)
    (fun i hpos => lt_of_lt_of_eq hpos
      (frame_congr (fun t => t.expTime i) hs rfl))
    (frame_congr procPtr hs rfl)
    (fun i => frame_congr (fun t => (t.privOf i).sFlags) hs rfl)

theorem mono {off' : Slot → Prop} (hoff : ∀ i, off i → off' i) : DeadlineInv s off' :=
  ⟨fun i hi => h.settled i fun ho => hi (hoff i ho),
    fun hi => h.current fun ho => hi (hoff _ ho), h.preempted⟩

end

/-- The entry of a process is changed while the process is being moved. -/
theorem modProc (h : DeadlineInv s (fun i => i = rp)) {f : Proc → Proc}
    (hpre : isSet (f (s.proc rp)).pRtsFlags rtsPreempted = true →
      s.rtsIsset rp rtsPreempted = true) (hpriv : (f (s.proc rp)).pPriv = (s.proc rp).pPriv) :
    DeadlineInv (s.modProc rp f) (fun i => i = rp) := by
  have hpriv' : ∀ i, (s.modProc rp f).privOf i = s.privOf i := by
    intro i
    simp only [privOf, modProc_congr s rp Proc.pPriv hpriv i, modProc_priv]
  have hother : ∀ {i}, i ≠ rp → (s.modProc rp f).proc i = s.proc i := fun hi =>
    modProc_proc_of_ne s rp f hi
  refine ⟨?_, ?_, ?_⟩
  · intro i hi
    rw [hother hi]
    exact h.settled i hi
  · intro hi
    have hne : s.procPtr ≠ rp := hi
    simp only [Preemptible, hpriv', expTime, modProc_procPtr, hother hne]
    exact h.current hne
  · intro i hi
    simp only [Preemptible, hpriv', modProc_procPtr]
    by_cases heq : i = rp
    · subst heq
      rw [rtsIsset, modProc_proc_self] at hi
      exact h.preempted i (hpre hi)
    · rw [rtsIsset, hother heq] at hi
      exact h.preempted i hi

/-- The move of a process ends: it has found its place. -/
theorem settle (h : DeadlineInv s (fun i => i = rp)) (hset : (s.proc rp).Settled)
    (hcur : s.procPtr = rp → s.Preemptible rp → 0 < s.expTime rp → (s.proc rp).pPriority = 7) :
    DeadlineInv s nobody := by
  refine ⟨?_, ?_, h.preempted⟩
  · intro i _
    by_cases heq : i = rp
    · rw [heq]
      exact hset
    · exact h.settled i heq
  · intro _
    by_cases heq : s.procPtr = rp
    · rw [heq]
      exact hcur heq
    · exact h.current heq

section

variable (h : DeadlineInv s off) (rp : Slot)
include h

/-- What the invariant says of the current process does not depend on flags. -/
theorem current_setRts (g : Proc → BitVec 16) : let s' := s.modProc rp fun p => p.setRts (g p)
    (∀ i, s'.Preemptible i ↔ s.Preemptible i) ∧
      (¬ off s'.procPtr → s'.Preemptible s'.procPtr → 0 < s'.expTime s'.procPtr →
        (s'.proc s'.procPtr).pPriority = 7) := by
  intro s'
  have hkeep : ∀ {α : Type} (k : Proc → α), (∀ p f, k (p.setRts f) = k p) →
      ∀ i, k (s'.proc i) = k (s.proc i) := fun k hk i => modProc_congr s rp k (hk _ _) i
  have hpre : ∀ i, s'.Preemptible i ↔ s.Preemptible i := fun i => by
    rw [Preemptible, privOf, hkeep Proc.pPriv fun _ _ => rfl]
    rfl
  refine ⟨hpre, ?_⟩
  rw [hpre, expTime, hkeep Proc.pDeadline fun _ _ => rfl, hkeep Proc.pPriority fun _ _ => rfl]
  exact h.current

/-- The flags of a process change, but not whether it is preempted, and it does not
become ready unless it is being moved. -/
theorem modFlags {g : Proc → BitVec 16}
    (hpre : isSet (g (s.proc rp)) rtsPreempted = isSet (s.proc rp).pRtsFlags rtsPreempted)
    (hready : g (s.proc rp) = 0#16 → (s.proc rp).pRtsFlags = 0#16 ∨ off rp) :
    DeadlineInv (s.modProc rp fun p => p.setRts (g p)) off := by
  obtain ⟨hpriv, hcurrent⟩ := h.current_setRts rp g
  refine ⟨?_, hcurrent, ?_⟩
  · intro i hi
    by_cases heq : i = rp
    · subst heq
      rw [modProc_proc_self]
      intro hexp hon
      refine h.settled i hi hexp ?_
      rcases hon with hzero | hset
      · exact .inl ((hready hzero).resolve_right hi)
      · exact .inr (hpre.symm.trans hset)
    · rw [modProc_proc_of_ne s rp _ heq]
      exact h.settled i hi
  · intro i hi
    rw [hpriv]
    refine h.preempted i ?_
    by_cases heq : i = rp
    · subst heq
      rw [rtsIsset, modProc_proc_self] at hi
      exact hpre.symm.trans hi
    · rw [rtsIsset, modProc_proc_of_ne s rp _ heq] at hi
      exact hi

theorem rtsSet (hf : f ≠ 0#16) (hd : rtsPreempted &&& f = 0#16) : DeadlineInv (s.rtsSet rp f) off := by
  refine unlinked (h.modFlags rp ?_ ?_) (unlinked_rtsSet s rp f)
  · exact isSet_or_of_disjoint hd
  · exact fun hzero => absurd hzero (or_ne_zero hf)

end

/-- The preemption at the end of `enqueue`. -/
theorem preempt (h : DeadlineInv s nobody) (hpre : s.Preemptible s.procPtr) :
    DeadlineInv (s.modProc s.procPtr fun p => p.setRts (p.pRtsFlags ||| rtsPreempted)) nobody := by
  obtain ⟨hpriv, hcurrent⟩ := h.current_setRts s.procPtr fun p => p.pRtsFlags ||| rtsPreempted
  refine ⟨?_, hcurrent, ?_⟩
  · intro i _
    by_cases heq : i = s.procPtr
    · subst heq
      rw [modProc_proc_self]
      exact fun hexp _ => h.current id hpre hexp
    · rw [modProc_proc_of_ne s s.procPtr _ heq]
      exact h.settled i id
  · intro i hi
    rw [hpriv]
    refine ⟨?_, hpre⟩
    by_contra heq
    rw [rtsIsset, modProc_proc_of_ne s s.procPtr _ heq] at hi
    exact heq (h.preempted i hi).1

/-- `enqueue` ends the move of a process. -/
theorem enqueue (h : DeadlineInv s (fun i => i = rp)) : DeadlineInv (s.enqueue rp) nobody := by
  refine unlinked ?_ (unlinked_enqueue s rp)
  have hsched : DeadlineInv (s.modProc rp Proc.sched) nobody := by
    have hplace : ∀ p : Proc, 0 < p.pDeadline.tmrExpTime → p.sched.pPriority = 7 := by
      intro p hexp
      simp [Proc.sched, hexp]
    refine settle (h.modProc (fun hset => hset) rfl) ?_ ?_
    · rw [modProc_proc_self]
      exact fun hexp _ => hplace _ hexp
    · intro _ _ hexp
      rw [modProc_proc_self]
      rw [expTime, modProc_proc_self] at hexp
      exact hplace _ hexp
  unfold requeued
  dsimp only
  split_ifs with hpre
  · simp only [preempts, Bool.and_eq_true] at hpre
    exact hsched.preempt hpre.2
  · exact hsched

section

variable (h : DeadlineInv s nobody)
include h

theorem rtsUnset {rp : Slot} (hd : rtsPreempted &&& f = 0#16) : DeadlineInv (s.rtsUnset rp f) nobody := by
  have hkeep : isSet (clearBits (s.proc rp).pRtsFlags f) rtsPreempted =
      isSet (s.proc rp).pRtsFlags rtsPreempted := isSet_clearBits_of_disjoint hd
  unfold State.rtsUnset
  dsimp only
  split_ifs with hnot
  · have hmoving : DeadlineInv s (fun i => i = rp) := h.mono fun _ => False.elim
    exact enqueue (hmoving.modFlags rp hkeep fun _ => .inr rfl)
  · refine h.modFlags rp hkeep fun hzero => .inl ?_
    by_contra hblocked
    simp [procIsRunnable, hblocked, Proc.setRts, hzero] at hnot

theorem step (hs : SchedStep s s') : DeadlineInv s' nobody := by
  cases hs with
  | same hs => exact h.same hs
  | set rp hf hd => exact h.rtsSet rp hf (disjoint_of_isSet (by decide) hd)
  | unset rp hd => exact h.rtsUnset (disjoint_of_isSet (by decide) hd)
  | mask rp hd hne =>
    refine h.modFlags rp ?_ fun hzero => absurd hzero hne
    exact isSet_clearBits_of_disjoint (disjoint_of_isSet (by decide) hd)

theorem steps (hs : SchedSteps s s') : DeadlineInv s' nobody := by
  induction hs with
  | refl => exact h
  | tail _ hstep ih => exact ih.step hstep

theorem quiet (hs : s'.erase = s.erase) : DeadlineInv s' nobody :=
  h.same (SameSched.quiet hs)

/-! ## Picking a process -/

/-- The current process is no longer preempted. -/
theorem unpreempt (hset : s.rtsIsset s.procPtr rtsPreempted = true) :
    DeadlineInv (s.modProc s.procPtr fun p => p.setRts (clearBits p.pRtsFlags rtsPreempted))
      nobody ∧
    ∀ i, (s.modProc s.procPtr fun p => p.setRts (clearBits p.pRtsFlags rtsPreempted)).rtsIsset i
      rtsPreempted = false := by
  obtain ⟨-, hcurrent⟩ :=
    h.current_setRts s.procPtr fun p => clearBits p.pRtsFlags rtsPreempted
  have hnone : ∀ i, (s.modProc s.procPtr fun p =>
      p.setRts (clearBits p.pRtsFlags rtsPreempted)).rtsIsset i rtsPreempted = false := by
    intro i
    by_cases heq : i = s.procPtr
    · subst heq
      rw [rtsIsset, modProc_proc_self]
      exact isSet_clearBits_self (by decide)
    · rw [rtsIsset, modProc_proc_of_ne s s.procPtr _ heq]
      exact Bool.eq_false_iff.mpr fun hi => heq (h.preempted i hi).1
  refine ⟨⟨?_, hcurrent, fun i hi => absurd hi (by rw [hnone i]; decide)⟩, hnone⟩
  intro i _
  by_cases heq : i = s.procPtr
  · subst heq
    rw [modProc_proc_self]
    exact fun hexp _ => h.settled s.procPtr id hexp (.inr hset)
  · rw [modProc_proc_of_ne s s.procPtr _ heq]
    exact h.settled i id

theorem requeueCurrent : DeadlineInv s.requeueCurrent nobody ∧
    ∀ i, s.requeueCurrent.rtsIsset i rtsPreempted = false := by
  refine requeueCurrent_rule
    (P := fun t => DeadlineInv t nobody ∧ ∀ i, t.rtsIsset i rtsPreempted = false)
    (fun hset => ⟨h, fun i => Bool.eq_false_iff.mpr fun hi => ?_⟩) (fun hset _ => ?_)
    (fun hset _ => h.unpreempt hset) fun t ht hptr => ?_
  · rw [(h.preempted i hi).1, hset] at hi
    exact nomatch hi
  · obtain ⟨hclear, hnone⟩ := h.unpreempt hset
    refine ⟨hclear.unlinked unlinked_enqueueHead, fun i => ?_⟩
    exact (frame_congr (fun t => t.rtsIsset i rtsPreempted) unlinked_enqueueHead rfl).trans (hnone i)
  · refine ⟨ht.1.rtsUnset (by decide), fun i => Bool.eq_false_iff.mpr fun hi => ?_⟩
    -- the process that gets its new place is the current one, which it cannot preempt
    rcases t.flags_rtsUnset t.procPtr with hflags | ⟨hi', hne, _⟩
    · rw [rtsIsset, hflags] at hi
      have hold : t.rtsIsset i rtsPreempted = true := by
        split_ifs at hi with heq
        · rw [heq]
          exact isSet_of_isSet_clearBits hi
        · exact hi
      rw [ht.2 i] at hold
      exact nomatch hold
    · exact hne hi'

/-- Another process becomes the current one while none is preempted. -/
theorem setProcPtr (hnone : ∀ i, s.rtsIsset i rtsPreempted = false)
    (hrp : (s.proc rp).pRtsFlags = 0#16 ∨ ¬ s.Preemptible rp) : DeadlineInv { s with procPtr := rp } nobody := by
  refine ⟨h.settled, ?_, ?_⟩
  · intro _ hpre hexp
    rcases hrp with hready | hfix
    · exact h.settled rp id hexp (.inl hready)
    · exact absurd hpre hfix
  · intro i hi
    have hset : s.rtsIsset i rtsPreempted = true := hi
    rw [hnone i] at hset
    exact nomatch hset

theorem pickNew (hready : ReadyInv s) (htasks : TasksFixed s)
    {rand : Nat} : DeadlineInv (s.pickNew rand).2 nobody := by
  obtain ⟨hreq, hnone⟩ := h.requeueCurrent
  have herase := s.requeueCurrent.erase_pickProc rand
  have hpicked := hreq.quiet herase
  have hnone' : ∀ i, (s.requeueCurrent.pickProc rand).2.rtsIsset i rtsPreempted = false := fun i =>
    (frame_congr (fun t => t.rtsIsset i rtsPreempted) herase rfl).trans (hnone i)
  have htasks' := (htasks.same (SameTimers.requeueCurrent s)).same (SameTimers.quiet herase)
  unfold State.pickNew
  split
  · rename_i rp s1 hpick
    have hrun := pickProc_runnable hready.requeueCurrent (congrArg Prod.fst hpick)
    rw [hpick] at hpicked hnone' herase
    refine hpicked.setProcPtr hnone' (.inl ?_)
    exact (frame_proc Proc.pRtsFlags herase rp rfl).trans hrun
  · rename_i hpick
    rw [hpick] at hpicked hnone' htasks'
    exact (hpicked.setProcPtr hnone' (.inr (htasks' idleSlot (by decide)))).quiet
      (erase_bill _ _)

end

/-! ## While a kernel task runs

The current process cannot be preempted then, so nobody is preempted, and only the
processes that are ready matter. -/

theorem of_task (hfix : ¬ s.Preemptible s.procPtr)
    (hnone : ∀ i, s.rtsIsset i rtsPreempted = false)
    (hready : ∀ i, (s.proc i).pRtsFlags = 0#16 → 0 < s.expTime i → (s.proc i).pPriority = 7) :
    DeadlineInv s nobody := by
  refine ⟨?_, fun _ hpre => absurd hpre hfix, ?_⟩
  · intro i _ hexp hon
    rcases hon with hzero | hset
    · exact hready i hzero hexp
    · have hflag : s.rtsIsset i rtsPreempted = true := hset
      rw [hnone i] at hflag
      exact nomatch hflag
  · intro i hi
    rw [hnone i] at hi
    exact nomatch hi

end DeadlineInv

/-- The invariant, while the current process is a kernel task. -/
structure TaskInv (s : State) : Prop where
  inv : DeadlineInv s nobody
  tasks : TasksFixed s
  current : s.procPtr.val < 4

namespace TaskInv

open DeadlineInv

variable {s s' : State}

variable (h : TaskInv s)
include h

theorem none_preempted {i : Slot} : s.rtsIsset i rtsPreempted = false :=
  Bool.eq_false_iff.mpr fun hi => h.tasks _ h.current (h.inv.preempted i hi).2

theorem steps (hs : SchedSteps s s') : TaskInv s' := by
  refine ⟨h.inv.steps hs, h.tasks.same (SameTimers.steps hs), ?_⟩
  rw [hs.procPtr]
  exact h.current

/-- A change of timers that gives nobody a deadline but processes that are blocked. -/
theorem retimed (hs : s'.untimed = s.untimed)
    (hexp : ∀ i, (s.proc i).pRtsFlags = 0#16 → 0 < s'.expTime i → 0 < s.expTime i) : TaskInv s' := by
  have hflags : ∀ i, (s'.proc i).pRtsFlags = (s.proc i).pRtsFlags := fun i =>
    frame_proc Proc.pRtsFlags hs i rfl
  have hpri : ∀ i, (s'.proc i).pPriority = (s.proc i).pPriority := fun i =>
    frame_proc Proc.pPriority hs i rfl
  have htasks : TasksFixed s' := h.tasks.congr fun i =>
    frame_congr (fun t => (t.privOf i).sFlags) hs rfl
  have hptr : s'.procPtr.val < 4 := by
    rw [frame_congr procPtr hs rfl]
    exact h.current
  refine ⟨of_task (htasks _ hptr) ?_ ?_, htasks, hptr⟩
  · intro i
    rw [rtsIsset, hflags i]
    exact h.none_preempted
  · intro i hzero hpos
    rw [hflags i] at hzero
    rw [hpri i]
    exact h.inv.settled i id (hexp i hzero hpos) (.inl hzero)

/-- The entry of a blocked process may change as long as the process stays blocked. -/
theorem modBlocked {f : Proc → Proc}
    (hpriv : rp.val < 4 → (f (s.proc rp)).pPriv = (s.proc rp).pPriv)
    (hne : (f (s.proc rp)).pRtsFlags ≠ 0#16)
    (hpre : isSet (f (s.proc rp)).pRtsFlags rtsPreempted = false) : TaskInv (s.modProc rp f) := by
  have hother : ∀ {i}, i ≠ rp → (s.modProc rp f).proc i = s.proc i := fun hi =>
    modProc_proc_of_ne s rp f hi
  have htasks : TasksFixed (s.modProc rp f) := by
    intro i hi
    rw [Preemptible, privOf, modProc_priv]
    by_cases heq : i = rp
    · subst heq
      rw [modProc_proc_self, hpriv hi]
      exact h.tasks i hi
    · rw [hother heq]
      exact h.tasks i hi
  refine ⟨of_task (htasks _ h.current) ?_ ?_, htasks, h.current⟩
  · intro i
    by_cases heq : i = rp
    · subst heq
      rw [rtsIsset, modProc_proc_self]
      exact hpre
    · rw [rtsIsset, hother heq]
      exact h.none_preempted
  · intro i hzero hexp
    by_cases heq : i = rp
    · subst heq
      rw [modProc_proc_self] at hzero
      exact absurd hzero hne
    · rw [expTime, hother heq] at hexp
      rw [hother heq] at hzero ⊢
      exact h.inv.settled i id hexp (.inl hzero)

/-! ### Acts -/

theorem balanceProc {rp : Slot} : TaskInv (s.balanceProc rp) := by
  refine ⟨?_, h.tasks.same SameTimers.balanceProc, by simpa using h.current⟩
  unfold State.balanceProc
  split
  · exact h.inv
  split
  · by_cases hrun : (s.proc rp).pRtsFlags = 0#16
    · have hoff : DeadlineInv (s.dequeue rp) (fun i => i = rp) :=
        (h.inv.mono fun _ => False.elim).unlinked unlinked_dequeue
      have hrp : ((s.dequeue rp).proc rp).pRtsFlags = 0#16 :=
        (frame_proc Proc.pRtsFlags unlinked_dequeue rp rfl).trans hrun
      simp only [procIsRunnable, hrun, modProc_proc_self, hrp, beq_self_eq_true,
        if_true]
      exact enqueue (hoff.modProc (fun hset => hset) rfl)
    · have hkeep := modProc_congr s rp (f := fun p =>
        { p with pPriority := p.pPriority - 1 }) Proc.pRtsFlags rfl rp
      simp only [procIsRunnable, beq_iff_eq, hrun, if_false, hkeep]
      have hlower : TaskInv (s.modProc rp fun p => { p with pPriority := p.pPriority - 1 }) :=
        h.modBlocked (fun _ => rfl) hrun (h.none_preempted)
      exact hlower.inv
  · refine h.inv.quiet ?_
    exact erase_modProc _ _ _ fun _ => rfl

theorem rtsSetflags {rc : Slot} : TaskInv (s.rtsSetflags rc rtsSlotFree) := by
  have hfree : TaskInv (s.modProc rc fun p => p.setRts rtsSlotFree) :=
    h.modBlocked (fun _ => rfl) (show rtsSlotFree ≠ 0#16 by decide)
      (show isSet rtsSlotFree rtsPreempted = false by decide)
  have hunlinked := s.unlinked_rtsSetflags rc rtsSlotFree
  refine ⟨hfree.inv.unlinked hunlinked, hfree.tasks.same (SameTimers.of_unlinked hunlinked), ?_⟩
  rw [frame_congr procPtr hunlinked rfl]
  exact hfree.current

/-- A deadline that expires belonged to a process that had one. -/
theorem clockAct {due : State → TimerId → Prop} (htimer : TimerInv False s)
    (hact : ClockAct due s s') : TaskInv s' := by
  cases hact with
  | sched hs => exact h.steps (.single hs)
  | balance rp => exact h.balanceProc
  | setTimer htp expTime watchdog =>
    refine h.retimed (untimed_setTimer _ _ _ _) fun i _ hpos => ?_
    rwa [s.expTime_setTimer htp] at hpos
  | @expire tp hhead _ =>
    obtain ⟨L, hL⟩ := htimer
    obtain ⟨L, rfl⟩ := hL.eq_cons hhead
    refine h.retimed (s.untimed_expire tp) fun i _ hpos => ?_
    by_cases heq : TimerId.deadline i = tp
    · exact (hL.linked i (heq ▸ List.mem_cons_self)).2.expTime
    · have hexp := congrArg Timer.tmrExpTime ((s.timer_expire tp (.deadline i)).trans (if_neg heq))
      exact lt_of_lt_of_eq hpos hexp

theorem withdraw {rp : Slot} : TaskInv (s.withdraw rp) := by
  refine h.retimed (s.untimed_withdraw) fun i _ hpos => ?_
  rw [s.expTime_withdraw] at hpos
  split at hpos
  · exact absurd hpos (lt_irrefl 0)
  · exact hpos

theorem fork {rpp rpc : Slot} (hslot : 4 ≤ rpc.val) {ep : Int} {sys : Bool} {lin : Nat}
    (hrecv : s.rtsIsset rpp rtsReceiving = true) :
    TaskInv (s.modProc rpc fun _ => State.forkedProc (s.proc rpp) rpc ep sys lin) := by
  have hnone : isSet (s.proc rpp).pRtsFlags rtsPreempted = false := h.none_preempted
  refine h.modBlocked (fun hlt => absurd hlt (by omega)) ?_ ?_ <;> simp only [forkedProc] <;> split
  · exact or_ne_zero (by decide)
  · exact ne_zero_of_isSet (m := rtsReceiving) (by decide) hrecv
  · exact (isSet_or_of_disjoint (by decide)).trans hnone
  · exact hnone

theorem act {strict : Prop} (htimer : TimerInv False s)
    (hact : Act (DeadlineOk strict) s s') : TaskInv s' := by
  cases hact with
  | clock hact => exact h.clockAct htimer hact
  | resetTimer tp htp =>
    refine h.retimed (untimed_resetTimer _ _) fun i _ hpos => ?_
    rwa [s.expTime_resetTimer htp] at hpos
  | alarm sp hf => exact h.retimed (untimed_modTimer _ _) fun i _ hpos => hpos
  | place rp _ hne => exact h.modBlocked (fun _ => rfl) hne (h.none_preempted)
  | withdraw rp _ => exact h.withdraw
  | declare rp hne _ =>
    refine h.retimed (s.untimed_declare rp _) fun i hzero hpos => ?_
    rw [s.expTime_declare, if_neg] at hpos
    · exact hpos
    · rintro rfl
      exact hne hzero
  | fork ep sys lin _ hrecv hok => exact h.fork hok.2 hrecv
  | free rc => exact (h.withdraw).rtsSetflags
  | unpriv sp =>
    have hflags : ∀ i, ((s.modPriv sp fun sp => { sp with sProcNr := endptNone }).privOf i).sFlags =
        (s.privOf i).sFlags := by
      intro i
      simp only [privOf, modPriv_proc, modPriv_priv]
      split_ifs with hsp
      · rw [hsp]
      · rfl
    exact ⟨h.inv.congr (fun _ => rfl) (fun _ => rfl) (fun _ hpos => hpos) rfl hflags,
      h.tasks.congr hflags, h.current⟩

end TaskInv

/-! ## Runs -/

/-- What holds in every state of a run with deadlines. -/
structure EdfInv (strict : Prop) (s : State) : Prop where
  ready : ReadyInv s
  timer : TimerInv strict s
  deadline : DeadlineInv s nobody
  tasks : TasksFixed s

theorem TimerInv.weaken {strict : Prop} (h : TimerInv strict s) : TimerInv False s := by
  obtain ⟨L, hL⟩ := h
  exact ⟨L, hL.path, hL.linked, hL.nonneg, fun hex => absurd hex id⟩

namespace EdfInv

variable {strict : Prop} {s s' : State}

section

variable (h : EdfInv strict s)
include h

theorem steps (hs : SchedSteps s s') : EdfInv strict s' :=
  ⟨h.ready.steps hs, h.timer.same (SameTimers.steps hs), h.deadline.steps hs,
    h.tasks.same (SameTimers.steps hs)⟩

theorem schedcheck {env : SchedEnv} {fuel : Nat} : EdfInv strict (s.schedcheck env fuel).2 := by
  refine schedcheck_rule (P := EdfInv strict) ?_ ?_ ?_ h fuel
  · exact fun t ht => ht.steps SameSched.stop.steps
  · exact fun t n ht hrun => ht.steps (steps_workOff_any hrun (env.mapped n) (env.deferred n)).sched
  · intro t n ht
    have hpick := ht.ready.pickNew (env.rand n)
    have hsame := SameTimers.pickNew t (env.rand n)
    exact ⟨⟨hpick.1, ht.timer.same hsame, ht.deadline.pickNew ht.ready ht.tasks,
      ht.tasks.same hsame⟩, hpick.2⟩

/-- What a kernel task does keeps the invariant, and the task is the current process. -/
theorem acts (hptr : s.procPtr.val < 4) (hs : Acts (DeadlineOk strict) s s') : EdfInv strict s' := by
  refine (run_keeps (P := fun t => EdfInv strict t ∧ t.procPtr.val < 4) ?_ ⟨h, hptr⟩ hs).1
  intro t t' ht hact
  have htask := TaskInv.act ⟨ht.1.deadline, ht.1.tasks, ht.2⟩ ht.1.timer.weaken hact
  exact ⟨⟨ht.1.ready.act hact, ht.1.timer.act hact, htask.inv, htask.tasks⟩, htask.current⟩

theorem op {op : Op} (hop : DeadlineRun strict s op) : EdfInv strict (op.run s) := by
  have hsys := hop.system
  cases op with
  | rtsSet rp f => exact h.steps (.single (.set s rp hsys.1 hsys.2))
  | rtsUnset rp f => exact h.steps (.single (.unset s rp hsys))
  | schedcheck env fuel => exact h.schedcheck
  | clockTask =>
    have hclock : s.procPtr = clockSlot := hsys
    exact h.acts (hclock ▸ by decide) (h.timer.acts_clockTask hop.kept)
  | balanceQueues =>
    have hclock : s.procPtr = clockSlot := hsys
    exact h.acts (hclock ▸ by decide) s.acts_balanceQueues.acts
  | request caller call =>
    have hwho : SameSched s { s with whoP := caller } := .quiet rfl
    have hok : DeadlineRun strict { s with whoP := caller } (.request caller call) :=
      ⟨hsys, hop.positive, hop.kept⟩
    exact (h.steps hwho.steps).acts (hsys.1 ▸ by decide) (KernelCall.acts hok.callOk)
  | rtsSetflags _ _ | requeue | dispatch _ | clearEndpoint _ | delivermsg _ _ => exact absurd hsys id
  | trap t => exact h.steps (Op.steps_any (o := .trap t) hsys).sched
  | lockSend dstE m => exact h.steps (Op.steps_any (o := .lockSend dstE m) hsys).sched
  | _ => exact h.steps (Steps.sched (Op.steps_any trivial))

end

theorem boot_tasks : ∀ rp : Slot, rp.val < 4 →
    isSet (boot.privOf rp).sFlags preemptible = false := by decide +kernel

theorem setScheduler (h : EdfInv strict s) (schedulerType : Int) :
    EdfInv strict (s.setScheduler schedulerType) := by
  refine ⟨h.ready.setScheduler, h.timer.setScheduler, ?_, ?_⟩
  · exact s.setScheduler_rule (P := fun t => DeadlineInv t nobody) fun _ =>
      ⟨h.deadline.settled, h.deadline.current, h.deadline.preempted⟩
  · exact h.tasks.congr fun i => s.setScheduler_rule
      (P := fun t => (t.privOf i).sFlags = (s.privOf i).sFlags) fun _ => rfl

theorem reachable (h : Reachable (DeadlineRun strict) s) : EdfInv strict s := by
  obtain ⟨schedulerType, hrun⟩ := h
  refine hrun.invariant (EdfInv strict) (setScheduler ?_ schedulerType) fun t op hinv hop =>
    hinv.op hop
  -- At the start nobody has a deadline.
  have hnone : ∀ rp, boot.expTime rp = 0 := by decide +kernel
  have hpre : ∀ rp, boot.rtsIsset rp rtsPreempted = false := by decide +kernel
  refine ⟨.boot, .of_none boot_clockTimers hnone, ⟨fun i _ hpos => absurd (hnone i) (ne_of_gt hpos),
    fun _ _ hpos => absurd (hnone _) (ne_of_gt hpos), fun i hi => nomatch (hpre i).symm.trans hi⟩, ?_⟩
  exact fun i hi hpre => nomatch (boot_tasks i hi).symm.trans hpre

end EdfInv

end Minix.Kernel
