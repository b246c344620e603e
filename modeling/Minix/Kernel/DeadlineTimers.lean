/-
  Kernel/DeadlineTimers.lean --- the timers of deadlines over runs of the kernel.

  Nothing but the timer functions writes timers: kernel code that only sets and clears
  flags, delivers messages or picks a process leaves every timer alone (`SameTimers`).
  What is left are the timer interrupt's work, `do_chdeadline`, the copy of an entry in
  `do_fork`, and the exit of a process.
-/
import Minix.Kernel.ReadyRun

set_option autoImplicit false

namespace Minix.Kernel

open Minix.Foundation Relation State

variable {f : BitVec 16} {μ : Mode} {rp : Slot} {tp : TimerId} {strict : Prop} {s : State}

/-- The expiration time of the deadline of a process. -/
abbrev State.expTime (s : State) (rp : Slot) : Int := (s.proc rp).pDeadline.tmrExpTime

/-! ## Code that leaves timers alone -/

/-- The scheduler's fields hold no timers. -/
theorem State.timer_of_unsched {s s' : State} (h : s'.unsched = s.unsched) (tp : TimerId) :
    s'.timer tp = s.timer tp := by
  cases tp with
  | deadline i => exact frame_proc Proc.pDeadline h i rfl
  | alarm sp => exact frame_congr (fun t => (t.priv sp).sAlarmTimer) h rfl
  | queue => exact frame_congr queueTimer h rfl

/-- The same timers are set, the same slots are free, the processes have the same
privileges, and the scheduler is the same. -/
structure SameTimers (s s' : State) : Prop where
  timer : ∀ tp, s'.timer tp = s.timer tp
  clockTimers : s'.clockTimers = s.clockTimers
  slotFree : ∀ i, s'.rtsIsset i rtsSlotFree = s.rtsIsset i rtsSlotFree
  sFlags : ∀ i, (s'.privOf i).sFlags = (s.privOf i).sFlags
  schedType : s'.schedType = s.schedType

namespace SameTimers

variable {s s' s'' : State}

theorem refl {s : State} : SameTimers s s :=
  ⟨fun _ => rfl, rfl, fun _ => rfl, fun _ => rfl, rfl⟩

theorem trans (h : SameTimers s s') (h' : SameTimers s' s'') : SameTimers s s'' :=
  ⟨fun tp => (h'.timer tp).trans (h.timer tp), h'.clockTimers.trans h.clockTimers,
    fun i => (h'.slotFree i).trans (h.slotFree i), fun i => (h'.sFlags i).trans (h.sFlags i),
    h'.schedType.trans h.schedType⟩

theorem expTime (h : SameTimers s s') (rp : Slot) : s'.expTime rp = s.expTime rp :=
  congrArg Timer.tmrExpTime (h.timer (.deadline rp))

theorem nonneg (h : SameTimers s s') (hs : ∀ rp, 0 ≤ s.expTime rp) (rp : Slot) :
    0 ≤ s'.expTime rp := by
  rw [h.expTime rp]
  exact hs rp

theorem of_unsched (h : s'.unsched = s.unsched)
    (hfree : ∀ i, s'.rtsIsset i rtsSlotFree = s.rtsIsset i rtsSlotFree) : SameTimers s s' where
  timer := timer_of_unsched h
  clockTimers := frame_congr State.clockTimers h rfl
  slotFree := hfree
  sFlags i := frame_congr (fun t => (t.privOf i).sFlags) h rfl
  schedType := frame_congr State.schedType h rfl

theorem of_unlinked (h : s'.unlinked = s.unlinked) : SameTimers s s' :=
  of_unsched (unsched_of_unlinked h)
    fun i => frame_congr (fun t => t.rtsIsset i rtsSlotFree) h rfl

theorem quiet (h : s'.erase = s.erase) : SameTimers s s' :=
  have hsame := SameSched.quiet h
  ⟨hsame.timer, hsame.clockTimers, fun i => by rw [rtsIsset, hsame.flags i]; rfl,
    hsame.sFlags, hsame.schedType⟩

section

variable (s : State) (rp : Slot)

/-- A change of an entry that keeps the timer, the privileges and the use of the slot. -/
theorem modProc {f : Proc → Proc} (htimer : (f (s.proc rp)).pDeadline = (s.proc rp).pDeadline)
    (hpriv : (f (s.proc rp)).pPriv = (s.proc rp).pPriv)
    (hflags : (f (s.proc rp)).pRtsFlags = (s.proc rp).pRtsFlags) : SameTimers s (s.modProc rp f) where
  timer tp := by
    cases tp with
    | deadline i => exact s.modProc_congr rp (fun p => p.pDeadline) htimer i
    | alarm sp => rfl
    | queue => rfl
  clockTimers := rfl
  slotFree i := by
    simp only [rtsIsset, s.modProc_congr rp (fun p => p.pRtsFlags) hflags i]
  sFlags i := by
    simp only [privOf, s.modProc_congr rp (fun p => p.pPriv) hpriv i, modProc_priv]
  schedType := rfl

theorem modFlags {g : Proc → BitVec 16}
    (hfree : isSet (g (s.proc rp)) rtsSlotFree = isSet (s.proc rp).pRtsFlags rtsSlotFree) :
    SameTimers s (s.modProc rp fun p => p.setRts (g p)) := by
  refine of_unsched (unsched_modProc s fun _ => rfl) fun i => ?_
  exact modProc_congr s rp (fun p => isSet p.pRtsFlags rtsSlotFree) hfree i

theorem rtsSet (hd : rtsSlotFree &&& f = 0#16) : SameTimers s (s.rtsSet rp f) :=
  of_unsched (unsched_rtsSet s rp f) fun i => s.rtsIsset_rtsSet_of_disjoint rp i hd

theorem rtsUnset (hd : rtsSlotFree &&& f = 0#16) : SameTimers s (s.rtsUnset rp f) :=
  of_unsched (unsched_rtsUnset s rp f)
    fun i => s.rtsIsset_rtsUnset_of_disjoint rp i hd (by decide)

theorem enqueue : SameTimers s (s.enqueue rp) := by
  refine of_unsched (unsched_enqueue s rp) fun i => ?_
  rcases s.flags_enqueue rp with hflags | ⟨_, _, hflags⟩
  · rw [rtsIsset, hflags]
    rfl
  · rw [rtsIsset, hflags, isSet_or_of_disjoint (by decide)]
    rfl

end

theorem step (h : SchedStep s s') : SameTimers s s' := by
  cases h with
  | same h =>
    exact ⟨h.timer, h.clockTimers, fun i => by rw [rtsIsset, h.flags i]; rfl, h.sFlags,
      h.schedType⟩
  | set rp _ hd => exact rtsSet s rp (disjoint_of_isSet (by decide) hd)
  | unset rp hd => exact rtsUnset s rp (disjoint_of_isSet (by decide) hd)
  | mask rp hd _ =>
    exact modFlags s rp (isSet_clearBits_of_disjoint (disjoint_of_isSet (by decide) hd))

theorem steps (h : SchedSteps s s') : SameTimers s s' := by
  induction h with
  | refl => exact refl
  | tail _ hstep ih => exact ih.trans (step hstep)

theorem kernelSteps (h : Steps μ s s') : SameTimers s s' := steps h.sched

theorem requeueCurrent (s : State) : SameTimers s s.requeueCurrent := by
  have hclear := modFlags s s.procPtr (g := fun p => clearBits p.pRtsFlags rtsPreempted)
    (isSet_clearBits_of_disjoint (by decide))
  exact requeueCurrent_rule (fun _ => refl)
    (fun _ _ => hclear.trans (of_unlinked unlinked_enqueueHead)) (fun _ _ => hclear)
    fun t ht _ => ht.trans (rtsUnset t _ (by decide))

theorem setProcPtr {s : State} {rp : Slot} : SameTimers s { s with procPtr := rp } :=
  ⟨fun tp => by cases tp <;> rfl, rfl, fun _ => rfl, fun _ => rfl, rfl⟩

theorem pickNew (s : State) (rand : Nat) : SameTimers s (s.pickNew rand).2 := by
  have hreq := (requeueCurrent s).trans (quiet (s.requeueCurrent.erase_pickProc rand))
  unfold State.pickNew
  split
  · rename_i rp s1 hpick
    rw [hpick] at hreq
    exact hreq.trans setProcPtr
  · rename_i s1 hpick
    rw [hpick] at hreq
    exact (hreq.trans setProcPtr).trans (quiet (erase_bill _ _))

theorem balanceProc {s : State} {rp : Slot} : SameTimers s (s.balanceProc rp) :=
  balanceProc_rule (P := SameTimers s) refl
    (fun _ ht => ht.trans (of_unlinked unlinked_dequeue))
    (fun t ht => ht.trans (modProc t rp rfl rfl rfl)) (fun t ht => ht.trans (enqueue t rp))
    fun t ht => ht.trans (modProc t rp rfl rfl rfl)

end SameTimers

/-! ## Deadlines -/

namespace State

variable (s : State) (rp : Slot)

theorem timer_withdraw (tq : TimerId) : ((s.withdraw rp).timer tq).unlinked =
    if tq = .deadline rp then { (s.timer tq).unlinked with tmrExpTime := 0 }
    else (s.timer tq).unlinked := by
  have hreset := s.unlinked_timer_resetTimer (.deadline rp) tq
  rw [withdraw, timer_modTimer]
  split_ifs with htq
  · subst htq
    rw [if_pos rfl] at hreset
    have hlink := congrArg (fun t : Timer => { t with tmrExpTime := 0 }) hreset
    exact hlink
  · rw [hreset, if_neg htq]

theorem timer_declare (expTime : Int) (tq : TimerId) : ((s.declare rp expTime).timer tq).unlinked =
    if tq = .deadline rp then ⟨none, expTime, some .reachDeadline, procNr rp⟩
    else (s.timer tq).unlinked := by
  rw [declare, unlinked_timer_setTimer, timer_modTimer, timer_modTimer, if_pos rfl]
  split <;> rfl

theorem timer_expire (tp tq : TimerId) : (s.expire tp).timer tq =
    if tq = tp then { s.timer tp with tmrExpTime := tmrNever } else s.timer tq := by
  have hsame : ∀ x, ({ s with clockTimers := (s.timer tp).tmrNext } : State).timer x = s.timer x :=
    fun x => by cases x <;> rfl
  rw [expire, timer_modTimer, hsame, hsame]

theorem path_expire {tp : TimerId} {L : List TimerId} (h : s.timerLinks.Path (.head ()) (tp :: L)) :
    (s.expire tp).timerLinks.Path (.head ()) L := by
  have hnext : ∀ tq, (s.expire tp).timerLinks.next tq = s.timerLinks.next tq := fun tq => by
    simp only [timerLinks, s.timer_expire tp]
    split_ifs with htq
    · rw [htq]
    · rfl
  have hhead : (s.expire tp).timerLinks.get (.head ()) = s.timerLinks.next tp := by
    rw [Links.get_head, timerLinks, expire, clockTimers_modTimer]
    rfl
  cases L with
  | nil => exact hhead.trans h.2
  | cons x L => exact ⟨hhead.trans h.2.1, h.2.2.congr (hnext x) fun y _ => hnext y⟩

theorem expTime_withdraw (i : Slot) :
    (s.withdraw rp).expTime i = if i = rp then 0 else s.expTime i := by
  have htimer := congrArg Timer.tmrExpTime (s.timer_withdraw rp (.deadline i))
  refine Eq.trans htimer ?_
  simp only [TimerId.deadline.injEq]
  split <;> rfl

theorem expTime_declare (expTime : Int) (i : Slot) :
    (s.declare rp expTime).expTime i = if i = rp then expTime else s.expTime i := by
  have htimer := congrArg Timer.tmrExpTime (s.timer_declare rp expTime (.deadline i))
  refine Eq.trans htimer ?_
  simp only [TimerId.deadline.injEq]
  split <;> rfl

theorem path_withdraw {L : List TimerId} (h : s.timerLinks.Path (.head ()) L) :
    (s.withdraw rp).timerLinks.Path (.head ()) (L.erase (.deadline rp)) := by
  unfold withdraw
  rw [timerLinks_modTimer _ _ rfl]
  exact s.path_resetTimer (.deadline rp) h

theorem path_declare {L : List TimerId} (h : s.timerLinks.Path (.head ()) L) (expTime : Int) :
    ∃ L', (s.declare rp expTime).timerLinks.Path (.head ()) L' ∧
      ∀ tp, tp ∈ L' ↔ tp = .deadline rp ∨ tp ∈ L := by
  refine path_setTimer _ (.deadline rp) ?_ expTime .reachDeadline
  rw [timerLinks_modTimer _ _ rfl]
  exact h

theorem expTime_setTimer {tp : TimerId} (htp : ∀ i, TimerId.deadline i ≠ tp) {expTime : Int}
    {watchdog : Watchdog} (i : Slot) : (s.setTimer tp expTime watchdog).expTime i = s.expTime i := by
  have htimer := congrArg Timer.tmrExpTime (s.unlinked_timer_setTimer tp expTime watchdog (.deadline i))
  rw [if_neg (htp i)] at htimer
  exact htimer

theorem expTime_resetTimer {tp : TimerId} (htp : ∀ i, TimerId.deadline i ≠ tp) (i : Slot) :
    (s.resetTimer tp).expTime i = s.expTime i := by
  have htimer := congrArg Timer.tmrExpTime (s.unlinked_timer_resetTimer tp (.deadline i))
  rw [if_neg (htp i)] at htimer
  exact htimer

end State

/-! ## The list of active timers -/

/-- The timer is set to send the deadline signal to `rp`. -/
structure Timer.Armed (t : Timer) (rp : Slot) : Prop where
  expTime : 0 < t.tmrExpTime
  func : t.tmrFunc = some .reachDeadline
  arg : t.tmrArg = procNr rp

/-- Whether a timer is armed does not depend on its link. -/
theorem Timer.Armed.congr {t t' : Timer} (h : t.Armed rp)
    (ht : t'.unlinked = t.unlinked) : t'.Armed rp := by
  have htime := congrArg Timer.tmrExpTime ht
  have hfunc := congrArg Timer.tmrFunc ht
  have harg := congrArg Timer.tmrArg ht
  exact ⟨htime.symm ▸ h.expTime, hfunc.trans h.func, harg.trans h.arg⟩

/-- The active timers are `L`.  A deadline among them is that of a live process and
armed for it.  If the run is `strict`, every live process with a deadline is among
them. -/
structure TimerRep (strict : Prop) (s : State) (L : List TimerId) : Prop where
  path : s.timerLinks.Path (.head ()) L
  linked : ∀ rp, .deadline rp ∈ L → s.Alive rp ∧ (s.timer (.deadline rp)).Armed rp
  nonneg : ∀ rp, 0 ≤ s.expTime rp
  complete : strict → ∀ rp, s.Alive rp → 0 < s.expTime rp → .deadline rp ∈ L

/-- The timers are in order. -/
def TimerInv (strict : Prop) (s : State) : Prop := ∃ L, TimerRep strict s L

namespace TimerRep

variable {strict : Prop} {s s' : State} {L L' : List TimerId}

/-- The timer of one process changes, or the process begins or ends. -/
theorem replace (h : TimerRep strict s L) (rp : Slot) (hpath : s'.timerLinks.Path (.head ()) L')
    (hmem : ∀ i, i ≠ rp → (TimerId.deadline i ∈ L' ↔ .deadline i ∈ L))
    (htimer : ∀ i, i ≠ rp →
      (s'.timer (.deadline i)).unlinked = (s.timer (.deadline i)).unlinked)
    (halive : ∀ i, i ≠ rp → (s'.Alive i ↔ s.Alive i))
    (hlinked : .deadline rp ∈ L' → s'.Alive rp ∧ (s'.timer (.deadline rp)).Armed rp)
    (hnonneg : 0 ≤ s'.expTime rp)
    (hcomplete : strict → s'.Alive rp → 0 < s'.expTime rp → .deadline rp ∈ L') :
    TimerRep strict s' L' := by
  have hexp : ∀ i, i ≠ rp → s'.expTime i = s.expTime i := fun i hi => by
    have htime := congrArg Timer.tmrExpTime (htimer i hi)
    exact htime
  refine ⟨hpath, ?_, ?_, ?_⟩
  · intro i hi
    by_cases heq : i = rp
    · subst heq
      exact hlinked hi
    · obtain ⟨hlive, harmed⟩ := h.linked i ((hmem i heq).mp hi)
      exact ⟨(halive i heq).mpr hlive, harmed.congr (htimer i heq)⟩
  · intro i
    by_cases heq : i = rp
    · subst heq
      exact hnonneg
    · rw [hexp i heq]
      exact h.nonneg i
  · intro hex i hlive hpos
    by_cases heq : i = rp
    · subst heq
      exact hcomplete hex hlive hpos
    · rw [hexp i heq] at hpos
      exact (hmem i heq).mpr (h.complete hex i ((halive i heq).mp hlive) hpos)

/-- No deadline changes. -/
theorem frame (h : TimerRep strict s L) (hpath : s'.timerLinks.Path (.head ()) L')
    (hmem : ∀ i, TimerId.deadline i ∈ L' ↔ .deadline i ∈ L)
    (htimer : ∀ i, (s'.timer (.deadline i)).unlinked = (s.timer (.deadline i)).unlinked)
    (halive : ∀ i, s'.Alive i ↔ s.Alive i) : TimerRep strict s' L' := by
  have hexp : ∀ i, s'.expTime i = s.expTime i := fun i => by
    have htime := congrArg Timer.tmrExpTime (htimer i)
    exact htime
  refine h.replace idleSlot hpath (fun i _ => hmem i) (fun i _ => htimer i) (fun i _ => halive i)
    ?_ ?_ ?_
  · intro hin
    obtain ⟨hlive, harmed⟩ := h.linked idleSlot ((hmem idleSlot).mp hin)
    exact ⟨(halive idleSlot).mpr hlive, harmed.congr (htimer idleSlot)⟩
  · rw [hexp]
    exact h.nonneg idleSlot
  · intro hex hlive hpos
    rw [hexp] at hpos
    exact (hmem idleSlot).mpr (h.complete hex idleSlot ((halive idleSlot).mp hlive) hpos)

theorem same (h : TimerRep strict s L) (hs : SameTimers s s') : TimerRep strict s' L := by
  have hlinks : s'.timerLinks = s.timerLinks := by
    simp only [timerLinks, hs.clockTimers, hs.timer]
  refine h.frame (hlinks ▸ h.path) (fun _ => Iff.rfl) (fun i => by rw [hs.timer]) fun i => ?_
  rw [Alive, hs.slotFree i]
  rfl

/-- The timer functions do not begin or end processes. -/
theorem alive_of_untimed (hs : s'.untimed = s.untimed) (i : Slot) : s'.Alive i ↔ s.Alive i := by
  have hfree := frame_congr (fun t => t.rtsIsset i rtsSlotFree) hs rfl
  rw [Alive, hfree]
  rfl

section

variable (h : TimerRep strict s L)
include h

/-- Another timer than a deadline is set. -/
theorem setTimer (htp : ∀ i, TimerId.deadline i ≠ tp) {expTime : Int} {watchdog : Watchdog} :
    ∃ L', TimerRep strict (s.setTimer tp expTime watchdog) L' := by
  obtain ⟨L', hpath, hmem⟩ := s.path_setTimer tp h.path expTime watchdog
  refine ⟨L', h.frame hpath ?_ ?_ (alive_of_untimed (s.untimed_setTimer tp expTime watchdog))⟩
  · intro i
    rw [hmem]
    exact or_iff_right (htp i)
  · intro i
    rw [s.unlinked_timer_setTimer tp expTime watchdog, if_neg (htp i)]

/-- Another timer than a deadline is reset. -/
theorem resetTimer {tp : TimerId} (htp : ∀ i, TimerId.deadline i ≠ tp) :
    TimerRep strict (s.resetTimer tp) (L.erase tp) := by
  refine h.frame (s.path_resetTimer tp h.path) ?_ ?_ (alive_of_untimed (s.untimed_resetTimer tp))
  · exact fun i => List.mem_erase_of_ne (htp i)
  · intro i
    rw [s.unlinked_timer_resetTimer tp, if_neg (htp i)]

/-- A deadline is withdrawn. -/
theorem withdraw {rp : Slot} : TimerRep strict (s.withdraw rp) (L.erase (.deadline rp)) := by
  have hne : ∀ {i}, i ≠ rp → TimerId.deadline i ≠ .deadline rp := by simp
  have hnot : TimerId.deadline rp ∉ L.erase (.deadline rp) := h.path.nodup.not_mem_erase
  have hzero := (s.expTime_withdraw rp rp).trans (if_pos rfl)
  refine h.replace rp ?_ ?_ ?_ ?_ (fun hin => absurd hin hnot) (le_of_eq hzero.symm) ?_
  · exact s.path_withdraw rp h.path
  · exact fun i hi => List.mem_erase_of_ne (hne hi)
  · intro i hi
    rw [s.timer_withdraw rp, if_neg (hne hi)]
  · exact fun i _ => alive_of_untimed (s.untimed_withdraw) i
  · exact fun _ _ hpos => absurd hzero (ne_of_gt hpos)

/-- A deadline is declared. -/
theorem declare (hlive : s.Alive rp) {expTime : Int}
    (hpos : 0 < expTime) : ∃ L', TimerRep strict (s.declare rp expTime) L' := by
  have hne : ∀ {i}, i ≠ rp → TimerId.deadline i ≠ .deadline rp := by simp
  have huntimed := s.untimed_declare rp expTime
  have htimer := s.timer_declare rp expTime
  have harmed : ((s.declare rp expTime).timer (.deadline rp)).Armed rp := by
    refine Timer.Armed.congr (t := ⟨none, expTime, some .reachDeadline, procNr rp⟩) ⟨hpos, rfl, rfl⟩ ?_
    rw [htimer, if_pos rfl]
    rfl
  obtain ⟨L', hpath', hmem⟩ := s.path_declare rp h.path expTime
  refine ⟨L', h.replace rp hpath' ?_ ?_ ?_ ?_ ?_ ?_⟩
  · intro i hi
    rw [hmem]
    exact or_iff_right (hne hi)
  · intro i hi
    rw [htimer, if_neg (hne hi)]
  · exact fun i _ => alive_of_untimed huntimed i
  · exact fun _ => ⟨(alive_of_untimed huntimed rp).mpr hlive, harmed⟩
  · exact le_of_lt harmed.expTime
  · exact fun _ _ _ => (hmem _).mpr (.inl rfl)

theorem eq_cons (hhead : s.clockTimers = some tp) : ∃ L', L = tp :: L' := by
  have hget := h.path.get_eq
  have hsome : L.head? = some tp := hget.symm.trans hhead
  exact ⟨L.tail, (List.cons_head?_tail hsome).symm⟩

end

/-- The first timer is taken off the list because it is due. -/
theorem expire (h : TimerRep strict s (tp :: L)) (hdue : strict → ∀ rp, tp ≠ .deadline rp) :
    TimerRep strict (s.expire tp) L := by
  have htimer := s.timer_expire tp
  have halive := alive_of_untimed (s.untimed_expire tp)
  have hnodup := List.nodup_cons.mp h.path.nodup
  have hpath := s.path_expire h.path
  by_cases hdeadline : ∃ rp, tp = .deadline rp
  · obtain ⟨rp, rfl⟩ := hdeadline
    have hne : ∀ {i}, i ≠ rp → TimerId.deadline i ≠ .deadline rp := by simp
    refine h.replace rp hpath ?_ ?_ (fun i _ => halive i) ?_ ?_ ?_
    · intro i hi
      rw [List.mem_cons, or_iff_right (hne hi)]
    · intro i hi
      rw [htimer, if_neg (hne hi)]
    · exact fun hin => absurd hin hnodup.1
    · have hnever : (s.expire (.deadline rp)).expTime rp = tmrNever := by
        have hself := congrArg Timer.tmrExpTime ((htimer (.deadline rp)).trans (if_pos rfl))
        exact hself
      exact le_of_le_of_eq (by decide) hnever.symm
    · exact fun hex => absurd rfl (hdue hex rp)
  · have hne : ∀ i, TimerId.deadline i ≠ tp := fun i heq => hdeadline ⟨i, heq.symm⟩
    refine h.frame hpath ?_ ?_ halive
    · intro i
      rw [List.mem_cons, or_iff_right (hne i)]
    · intro i
      rw [htimer, if_neg (hne i)]

/-- A process begins in a free slot, with a copy of another process' timer. -/
theorem fork (h : TimerRep strict s L) {rpc rpp : Slot} (hfree : ¬ s.Alive rpc) {child : Proc}
    (htimer : child.pDeadline = (s.proc rpp).pDeadline)
    (hnone : strict → s.expTime rpp = 0) : TimerRep strict (s.modProc rpc fun _ => child) L := by
  have hnot : TimerId.deadline rpc ∉ L := fun hin => hfree (h.linked rpc hin).1
  have hother : ∀ tq, tq ≠ .deadline rpc → (s.modProc rpc fun _ => child).timer tq = s.timer tq := by
    intro tq htq
    cases tq with
    | deadline i =>
      have hi : i ≠ rpc := fun heq => htq (congrArg TimerId.deadline heq)
      simp only [timer, modProc_proc_of_ne s rpc _ hi]
    | alarm sp => rfl
    | queue => rfl
  have hchild : (s.modProc rpc fun _ => child).expTime rpc = s.expTime rpp := by
    simp only [expTime, modProc_proc_self, htimer]
  refine h.replace rpc (h.path.congr rfl ?_) (fun _ _ => Iff.rfl) ?_ ?_ ?_ ?_ ?_
  · intro x hx
    simp only [timerLinks, hother x fun heq => hnot (heq ▸ hx)]
  · intro i hi
    rw [hother _ (by simpa using hi)]
  · intro i hi
    simp only [Alive, rtsIsset, modProc_proc_of_ne s rpc _ hi]
  · exact fun hin => absurd hin hnot
  · rw [hchild]
    exact h.nonneg rpp
  · intro hex _ hpos
    rw [hchild, hnone hex] at hpos
    exact absurd hpos (lt_irrefl 0)

/-- A process without a deadline ends. -/
theorem free (h : TimerRep strict s L) {rc : Slot} (hnot : TimerId.deadline rc ∉ L) :
    TimerRep strict (s.rtsSetflags rc rtsSlotFree) L := by
  have hunsched := unsched_rtsSetflags s rc rtsSlotFree
  have htimer := timer_of_unsched hunsched
  have hflags := s.flags_rtsSetflags rc rtsSlotFree
  have hlinks : (s.rtsSetflags rc rtsSlotFree).timerLinks = s.timerLinks := by
    have hhead := frame_congr clockTimers hunsched rfl
    simp only [timerLinks, hhead, htimer]
  refine h.replace rc (hlinks ▸ h.path) (fun _ _ => Iff.rfl) (fun i _ => by rw [htimer]) ?_ ?_ ?_ ?_
  · intro i hi
    rw [Alive, rtsIsset, hflags, if_neg hi]
    rfl
  · exact fun hin => absurd hin hnot
  · have hexp : (s.rtsSetflags rc rtsSlotFree).expTime rc = s.expTime rc :=
      congrArg Timer.tmrExpTime (htimer (.deadline rc))
    rw [hexp]
    exact h.nonneg rc
  · intro _ hlive
    rw [Alive, rtsIsset, hflags, if_pos rfl] at hlive
    cases hlive

end TimerRep

/-! ## Runs -/

/-- No live process has a deadline that is due. -/
def State.NoneDue (s : State) (now : Int) : Prop :=
  ∀ rp, s.Alive rp → 0 < s.expTime rp → now < s.expTime rp

/-- What PM sees to when it asks for a kernel call: it declares deadlines for live
processes and forks into slots of its own table; privileges are not its business. -/
def PmCall (s : State) : KernelCall → Prop
  | .chdeadline n _ => ∀ rp, procAddr n = some rp → s.Alive rp
  | .fork _ slot _ => 0 ≤ slot
  | .privctl _ _ => False
  | _ => True

/-- What the kernel sees to: a kernel task runs when it is the current process, only a
runnable process traps, and the flags of preempted processes and of free slots are left
to the scheduler and to exit. -/
def SystemRun (s : State) : Op → Prop
  | .rtsSet _ f => f ≠ 0#16 ∧ (rtsPreempted ||| rtsSlotFree) &&& f = 0#16
  | .rtsUnset _ f => (rtsPreempted ||| rtsSlotFree) &&& f = 0#16
  | .schedcheck _ _ | .tick | .notify _ _ | .signal _ _ | .store _ _ _ => True
  | .trap _ => s.procIsRunnable s.procPtr = true
  | .lockSend dstE _ => s.MayReply dstE
  | .clockTask | .balanceQueues => s.procPtr = clockSlot
  | .request _ call => s.procPtr = systemSlot ∧ PmCall s call
  | .rtsSetflags _ _ | .requeue | .dispatch _ | .clearEndpoint _ | .delivermsg _ _ => False

/-- A deadline that is declared is a positive time. -/
def PositiveDeadline (s : State) : Op → Prop
  | .request _ (.chdeadline _ deadline) =>
      deadline = 0 ∨ 0 < wrap32 (deadline * 60 + s.realtime)
  | _ => True

/-- No process with a deadline forks, and no deadline is due when the clock task looks at
the timers. -/
def DeadlineKept (s : State) : Op → Prop
  | .clockTask => s.NoneDue s.realtime
  | .request _ (.fork parentE _ _) => ∀ rpp, s.isokendpt parentE = some rpp → s.expTime rpp = 0
  | _ => True

/-- A run with deadlines.  In an `strict` run deadlines are also kept. -/
structure DeadlineRun (strict : Prop) (s : State) (op : Op) : Prop where
  system : SystemRun s op
  positive : PositiveDeadline s op
  kept : strict → DeadlineKept s op

instance (s : State) (rp : Slot) : Decidable (s.Alive rp) :=
  inferInstanceAs (Decidable (_ = _))

instance (s : State) (call : KernelCall) : Decidable (PmCall s call) := by
  induction call using KernelCall.casesOn <;> delta PmCall <;> infer_instance

instance (s : State) (op : Op) : Decidable (SystemRun s op) := by
  induction op using Op.casesOn <;> delta SystemRun <;> infer_instance

instance (s : State) (op : Op) : Decidable (PositiveDeadline s op) := by
  induction op using Op.casesOn <;> try induction ‹KernelCall› using KernelCall.casesOn
  all_goals delta PositiveDeadline; infer_instance

instance (s : State) (now : Int) : Decidable (s.NoneDue now) := by
  unfold State.NoneDue
  infer_instance

instance (s : State) (op : Op) : Decidable (DeadlineKept s op) := by
  unfold DeadlineKept
  split <;> infer_instance

/-- The conditions on deeds in runs with deadlines. -/
def DeadlineOk (strict : Prop) (s : State) : Deed → Prop
  | .expire tp => strict → ∀ rp, tp ≠ .deadline rp
  | .withdraw _ => True
  | .declare rp expTime => s.Alive rp ∧ 0 < expTime
  | .fork rpp rpc => (strict → s.expTime rpp = 0) ∧ 4 ≤ rpc.val

namespace TimerInv

variable {strict : Prop} {s s' : State}

theorem same (h : TimerInv strict s) (hs : SameTimers s s') : TimerInv strict s' :=
  h.imp fun _ hL => hL.same hs

theorem clockAct {due : State → TimerId → Prop} (hdue : ∀ t tp, due t tp → strict → ∀ rp, tp ≠ .deadline rp)
    (h : TimerInv strict s) (hact : ClockAct due s s') : TimerInv strict s' := by
  obtain ⟨L, hL⟩ := h
  cases hact with
  | sched hs => exact ⟨L, hL.same (SameTimers.step hs)⟩
  | balance rp => exact ⟨L, hL.same SameTimers.balanceProc⟩
  | setTimer htp expTime watchdog => exact hL.setTimer htp
  | expire hhead htp =>
    obtain ⟨L, rfl⟩ := hL.eq_cons hhead
    exact ⟨L, hL.expire (hdue _ _ htp)⟩

theorem act (h : TimerInv strict s) (hact : Act (DeadlineOk strict) s s') : TimerInv strict s' := by
  obtain ⟨L, hL⟩ := h
  cases hact with
  | clock hact => exact clockAct (fun _ _ hdue => hdue) ⟨L, hL⟩ hact
  | resetTimer tp htp => exact ⟨_, hL.resetTimer htp⟩
  | alarm sp hf =>
    refine ⟨L, hL.frame ?_ (fun _ => Iff.rfl) (fun i => ?_)
      (TimerRep.alive_of_untimed (untimed_modTimer _ _))⟩
    · rw [timerLinks_modTimer _ _ (hf _)]
      exact hL.path
    · rw [timer_modTimer, if_neg (by simp)]
  | place rp _ _ => exact ⟨L, hL.same (SameTimers.modProc s rp rfl rfl rfl)⟩
  | withdraw rp _ => exact ⟨_, hL.withdraw⟩
  | declare rp _ hok => exact hL.declare hok.1 hok.2
  | @fork rpp _ _ _ _ hfree _ hok =>
    refine ⟨L, hL.fork ?_ (show _ = (s.proc rpp).pDeadline from rfl) hok.1⟩
    rw [Alive, rtsIsset, hfree]
    decide
  | free rc => exact ⟨_, (hL.withdraw).free hL.path.nodup.not_mem_erase⟩
  | unpriv sp =>
    refine ⟨L, hL.frame (hL.path.congr rfl ?_) (fun _ => Iff.rfl) (fun _ => rfl) fun _ => Iff.rfl⟩
    intro tp _
    cases tp with
    | deadline i => rfl
    | alarm sp' =>
      simp only [timerLinks, timer, modPriv_priv]
      split_ifs with hsp
      · rw [hsp]
      · rfl
    | queue => rfl

end TimerInv

namespace State

variable {s s' : State} {now : Int}

theorem NoneDue.congr (h : s.NoneDue now) (halive : ∀ i, s'.Alive i ↔ s.Alive i)
    (hexp : ∀ i, s'.expTime i = s.expTime i) : s'.NoneDue now := by
  intro rp hlive hpos
  rw [hexp] at hpos ⊢
  exact h rp ((halive rp).mp hlive) hpos

theorem NoneDue.same (h : s.NoneDue now) (hs : SameTimers s s') : s'.NoneDue now := by
  refine h.congr (fun i => ?_) hs.expTime
  rw [Alive, hs.slotFree i]
  rfl

theorem NoneDue.clockAct {due : State → TimerId → Prop} (hdue : ∀ t tp, due t tp → ∀ rp, tp ≠ .deadline rp)
    (h : s.NoneDue now) (hact : ClockAct due s s') : s'.NoneDue now := by
  cases hact with
  | sched hs => exact h.same (SameTimers.step hs)
  | balance rp => exact h.same SameTimers.balanceProc
  | setTimer htp expTime watchdog =>
    exact h.congr (TimerRep.alive_of_untimed (untimed_setTimer _ _ _ _)) (s.expTime_setTimer htp)
  | @expire tp _ htp =>
    refine h.congr (TimerRep.alive_of_untimed (s.untimed_expire tp)) fun i => ?_
    exact congrArg Timer.tmrExpTime ((s.timer_expire tp _).trans (if_neg (hdue _ _ htp i).symm))

end State

/-- If no deadline is due, the clock task lets none expire. -/
theorem TimerInv.acts_clockTask (h : TimerInv strict s) (hdue : strict → s.NoneDue s.realtime) :
    Acts (DeadlineOk strict) s s.clockTask := by
  refine (State.acts_clockTask s fun t tp ht hhead hfirst hex => ?_).acts
  have hkeep : TimerInv strict t ∧ t.NoneDue s.realtime :=
    run_keeps (P := fun t => TimerInv strict t ∧ t.NoneDue s.realtime)
      (fun _ _ hinv hact => ⟨clockAct (fun _ _ hd => hd) hinv.1 hact,
        hinv.2.clockAct (fun _ _ hd => hd hex) hact⟩) ⟨h, hdue hex⟩ ht
  obtain ⟨⟨L, hL⟩, hnone⟩ := hkeep
  obtain ⟨L, rfl⟩ := hL.eq_cons hhead
  rintro rp rfl
  obtain ⟨hlive, harmed⟩ := hL.linked rp List.mem_cons_self
  exact absurd hfirst (not_le_of_gt (hnone rp hlive harmed.expTime))

/-- The kernel calls in a run with deadlines. -/
theorem DeadlineRun.callOk {caller : Slot} {call : KernelCall}
    (h : DeadlineRun strict s (.request caller call)) : call.Ok (DeadlineOk strict) s := by
  cases call with
  | chdeadline n deadline =>
    refine fun rp t haddr ht => ⟨trivial, fun hne => ⟨?_, h.positive.resolve_left hne⟩⟩
    refine (TimerRep.alive_of_untimed ht rp).mpr ?_
    exact ((SameTimers.rtsSet s rp (f := rtsSysLock) (by decide)).slotFree rp).trans (h.system.2 rp haddr)
  | fork parentE slot env =>
    refine fun rpp rpc hparent haddr => ⟨fun hex => h.kept hex rpp hparent, ?_⟩
    have hslot : 0 ≤ slot := h.system.2
    have hnr := procNr_of_procAddr haddr
    unfold procNr at hnr
    omega
  | privctl _ _ => exact absurd h.system.2 id
  | _ => trivial

/-! ### The start of the kernel -/

theorem boot_clockTimers : boot.clockTimers = none := by decide +kernel

theorem TimerInv.of_none (hlist : s.clockTimers = none)
    (hnone : ∀ rp, s.expTime rp = 0) : TimerInv strict s := by
  refine ⟨[], hlist, ?_, ?_, ?_⟩
  · exact fun rp hin => absurd hin List.not_mem_nil
  · exact fun rp => le_of_eq (hnone rp).symm
  · exact fun _ rp _ hpos => absurd (hnone rp) (ne_of_gt hpos)

theorem TimerInv.setScheduler (h : TimerInv strict s)
    {schedulerType : Int} : TimerInv strict (s.setScheduler schedulerType) := by
  obtain ⟨L, hL⟩ := h
  refine s.setScheduler_rule fun _ => ⟨L, hL.frame (hL.path.congr rfl fun tp _ => ?_)
    (fun _ => Iff.rfl) (fun _ => rfl) fun _ => Iff.rfl⟩
  cases tp <;> rfl

end Minix.Kernel
