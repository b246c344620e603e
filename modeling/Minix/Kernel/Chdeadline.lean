/-
  Kernel/Chdeadline.lean --- what do_chdeadline.c leaves behind.

  The expiration time of a deadline is computed in 32 bits, and its sign decides later
  whether the timer is reset.  So a deadline is set, or withdrawn, as asked only if the
  time is not beyond 32 bits.
-/
import Minix.Kernel.DeadlineQueue

set_option autoImplicit false

namespace Minix.Kernel

open Minix.Foundation Relation

/-! ## The timer of the process -/

/-- A deadline of `d` seconds was asked for at time `u`: the timer is active once, for the
process itself and not before the time is up, and no timer is active for no deadline. -/
def State.DeadlineSet (s : State) (rp : Slot) (d u : Int) : Prop :=
  ∃ L, s.timerLinks.Path (.head ()) L ∧
    (0 < d → L.count (.deadline rp) = 1 ∧
      (s.timer (.deadline rp)).tmrFunc = some .reachDeadline ∧
      (s.timer (.deadline rp)).tmrArg = procNr rp ∧ u + 60 * d ≤ s.expTime rp) ∧
    (d = 0 → TimerId.deadline rp ∉ L)

section Chdeadline

variable {s : State} {L : List TimerId} {n d u : Int} {rp : Slot}

theorem State.path_nil (hnone : s.clockTimers = none) : s.timerLinks.Path (.head ()) [] := hnone

/-- A locked process has no active timer, unless its time is not positive. -/
theorem State.path_locked (s : State) (rp : Slot) (hL : s.timerLinks.Path (.head ()) L) :
    (s.locked rp).timerLinks.Path (.head ())
      (if 0 < s.expTime rp then L.erase (.deadline rp) else L) := by
  have hsame := SameTimers.rtsSet s rp (f := rtsSysLock) (by decide)
  have hpath : (s.rtsSet rp rtsSysLock).timerLinks.Path (.head ()) L :=
    hL.congr hsame.clockTimers fun tp _ => congrArg Timer.tmrNext (hsame.timer tp)
  have htime : ((s.rtsSet rp rtsSysLock).proc rp).pDeadline.tmrExpTime = s.expTime rp :=
    hsame.expTime rp
  unfold locked
  rw [htime]
  split
  · exact path_withdraw _ rp hpath
  · exact hpath

theorem State.DeadlineSet.same_iff {s' : State} (hs : SameTimers s s') :
    s'.DeadlineSet rp d u ↔ s.DeadlineSet rp d u := by
  have hlinks : s'.timerLinks = s.timerLinks :=
    congrArg₂ Links.mk (funext fun _ => hs.clockTimers)
      (funext fun tp => congrArg Timer.tmrNext (hs.timer tp))
  unfold DeadlineSet
  rw [hlinks, hs.timer, hs.expTime]

/-- Declaring a time sets the deadline if the time is late enough. -/
theorem State.deadlineSet_declare_iff (hL : s.timerLinks.Path (.head ()) L) (hd : 0 < d)
    (expTime : Int) : (s.declare rp expTime).DeadlineSet rp d u ↔ u + 60 * d ≤ expTime := by
  have htime : (s.declare rp expTime).expTime rp = expTime := by rw [expTime_declare, if_pos rfl]
  have htimer := s.timer_declare rp expTime (.deadline rp)
  rw [if_pos rfl] at htimer
  constructor
  · rintro ⟨_, _, hset, _⟩
    exact (hset hd).2.2.2.trans_eq htime
  intro hle
  obtain ⟨L', hL', hmem⟩ := s.path_declare rp hL expTime
  have hcount : L'.count (.deadline rp) = 1 :=
    List.count_eq_one_of_mem hL'.nodup ((hmem _).mpr (.inl rfl))
  have hfunc := congrArg Timer.tmrFunc htimer
  have harg := congrArg Timer.tmrArg htimer
  exact ⟨L', hL', fun _ => ⟨hcount, hfunc, harg, hle.trans_eq htime.symm⟩, fun hzero => by omega⟩

/-- Without a declaration no timer may be active. -/
theorem State.deadlineSet_zero_iff (hL : s.timerLinks.Path (.head ()) L) :
    s.DeadlineSet rp 0 u ↔ TimerId.deadline rp ∉ L := by
  constructor
  · rintro ⟨L', hL', _, hnone⟩
    rw [hL.unique hL']
    exact hnone rfl
  · exact fun hnot => ⟨L, hL, fun hpos => absurd hpos (lt_irrefl 0), fun _ => hnot⟩

/-- A number is a lower bound of what 32 bits hold of it if it fits. -/
theorem le_wrap32_iff {x : Int} (hx : 0 ≤ x) : x ≤ wrap32 x ↔ x < 2 ^ 31 := by
  unfold wrap32
  rw [Int.bmod_def]
  split <;> omega

/-- A deadline is set as asked if its time fits into 32 bits, and it is withdrawn if the
time stored for an active timer is positive. -/
theorem chdeadline_sets_iff (hL : s.timerLinks.Path (.head ()) L) (hu : 0 ≤ s.realtime)
    (haddr : procAddr n = some rp) (hd : 0 ≤ d) :
    (s.doChdeadline n d).2.DeadlineSet rp d s.realtime ↔
      (0 < d → s.realtime + 60 * d < 2 ^ 31) ∧
        (d = 0 → TimerId.deadline rp ∈ L → 0 < s.expTime rp) := by
  have hpath := s.path_locked rp hL
  rw [s.doChdeadline_eq haddr, State.DeadlineSet.same_iff (SameTimers.rtsUnset _ rp (by decide))]
  rcases hd.eq_or_lt with rfl | hpos
  · rw [if_neg (by simp), State.deadlineSet_zero_iff hpath]
    split_ifs with htime
    · simp [htime, hL.nodup.not_mem_erase]
    · simp [htime]
  · have hne : d ≠ 0 := by omega
    have hfits := le_wrap32_iff (x := d * 60 + s.realtime) (by omega)
    have hcomm : s.realtime + 60 * d = d * 60 + s.realtime := by omega
    rw [if_pos hne, State.deadlineSet_declare_iff hpath hpos, hcomm, hfits]
    simp [hpos, hne]

/-- PM declares a deadline of ten seconds at the start. -/
theorem chdeadline_sets_ten :
    (boot.doChdeadline 0 10).2.DeadlineSet pmSlot 10 boot.realtime :=
  (chdeadline_sets_iff (s := boot) (L := []) (n := 0) (d := 10) (State.path_nil boot_clockTimers)
    (by decide +kernel) (by decide +kernel) (by decide)).mpr ⟨fun _ => by decide +kernel, fun hzero => by omega⟩

/-- A deadline after 2^31 ticks gets a negative time, and is not withdrawn any more. -/
theorem chdeadline_wraps :
    ¬ (boot.doChdeadline 0 35791395).2.DeadlineSet pmSlot 35791395 boot.realtime ∧
      ((boot.doChdeadline 0 35791395).2.doChdeadline 0 0).2.clockTimers =
        some (.deadline pmSlot) := by
  refine ⟨?_, by decide +kernel⟩
  rintro ⟨_, _, hset, _⟩
  exact absurd (hset (by decide)).2.2.2 (by decide +kernel)

end Chdeadline

/-! ## The queues a process may run in

A process without a deadline stays on the queues from `p_max_priority` on.  A deadline
moves it to queue 7, wherever it was, and nothing remembers its place; so the deadline
must not be withdrawn from a process that queue 7 is too high for. -/

/-- A live process without a deadline is not above its highest queue. -/
def Proc.Banded (p : Proc) : Prop :=
  isSet p.pRtsFlags rtsSlotFree = false → p.pDeadline.tmrExpTime = 0 → p.pMaxPriority ≤ p.pPriority

/-- `sched` moves a process without a deadline down at most, and `balance_queues` stops at
its highest queue. -/
theorem Proc.Banded.steady : Proc.Steady Proc.Banded where
  unlinked _ := rfl
  sched p h hlive hnone := by
    have hpri := h hlive hnone
    have hzero : p.pDeadline.tmrExpTime = 0 := hnone
    simp only [Proc.sched, hzero, lt_irrefl, if_false]
    repeat' split
    all_goals omega
  flags p f hf h hlive hnone := by
    refine h (Bool.eq_false_iff.mpr fun hfree => ?_) hnone
    exact absurd (hf hfree) (Bool.eq_false_iff.mp hlive)
  raise p hlower _ _ _ := by
    dsimp only
    omega
  refill _ h := h

/-- All processes are on a queue that they may run in, apart from those in `off`, whose
deadlines just change. -/
abbrev State.Banded (s : State) (off : Slot → Prop) : Prop := s.Entries Proc.Banded off

namespace State.Banded

variable {s s' : State} {off : Slot → Prop} {rp : Slot} {f : BitVec 16}

section

variable (h : s.Banded off)
include h

theorem same (hs : SameSched s s') : s'.Banded off := by
  intro i hi
  rw [Proc.Banded, hs.flags, hs.priority, hs.maxPriority]
  rw [show (s'.proc i).pDeadline = (s.proc i).pDeadline from hs.timer (.deadline i)]
  exact h i hi

theorem step (hs : SchedStep s s') : s'.Banded off := by
  cases hs with
  | same hs => exact same h hs
  | set rp _ _ => exact h.rtsSet Proc.Banded.steady rp _
  | unset rp hd => exact h.rtsUnset Proc.Banded.steady rp (disjoint_of_isSet (by decide) hd)
  | mask rp hd _ => exact h.clear Proc.Banded.steady rp (disjoint_of_isSet (by decide) hd)

theorem kernelSteps {μ : Mode} (hs : Steps μ s s') : s'.Banded off :=
  run_keeps (P := fun t => t.Banded off) (fun _ _ ht hstep => step ht hstep) h hs.sched

theorem pickNew {rand : Nat} : (s.pickNew rand).2.Banded off := by
  have hpicked := same (h.requeueCurrent Proc.Banded.steady)
    (SameSched.quiet (s.requeueCurrent.erase_pickProc rand))
  unfold State.pickNew
  split
  · rename_i s1 hpick
    rw [hpick] at hpicked
    exact hpicked
  · rename_i s1 hpick
    rw [hpick] at hpicked
    have hidle : ({ s1 with procPtr := idleSlot } : State).Banded off := hpicked
    exact same hidle (SameSched.quiet (erase_bill _ _))

/-! ### Deadlines -/

/-- Timers change, but nobody loses a deadline. -/
theorem retimed (hs : s'.untimed = s.untimed)
    (hexp : ∀ i, ¬ off i → s'.expTime i = 0 → s.expTime i = 0) : s'.Banded off := by
  intro i hi hlive hnone
  rw [frame_proc Proc.pRtsFlags hs i rfl] at hlive
  rw [frame_proc Proc.pMaxPriority hs i rfl,
    frame_proc Proc.pPriority hs i rfl]
  exact h i hi hlive (hexp i hi hnone)

end

theorem withdraw (h : s.Banded nobody) {rp : Slot} : (s.withdraw rp).Banded fun i => i = rp := by
  refine retimed h.mono (s.untimed_withdraw) fun i hi hnone => ?_
  rwa [expTime_withdraw, if_neg hi] at hnone

/-- The place of a process does not change while its deadline does. -/
theorem place_locked {t : State} (ht : t.untimed = (s.rtsSet rp rtsSysLock).untimed)
    (h : (s.proc rp).pMaxPriority ≤ (s.proc rp).pPriority) :
    (t.proc rp).pMaxPriority ≤ (t.proc rp).pPriority := by
  rw [frame_congr (fun t => (t.proc rp).pMaxPriority ≤ (t.proc rp).pPriority) ht rfl,
    frame_congr (fun t => (t.proc rp).pMaxPriority ≤ (t.proc rp).pPriority)
      (s.unlinked_rtsSet rp rtsSysLock) rfl, modProc_proc_self]
  exact h

theorem doChdeadline (h : s.Banded nobody) {n d : Int} (hok : ∀ rp, procAddr n = some rp →
      d = 0 ∨ wrap32 (d * 60 + s.realtime) = 0 → (s.proc rp).pMaxPriority ≤ (s.proc rp).pPriority) :
    (s.doChdeadline n d).2.Banded nobody := by
  rcases haddr : procAddr n with _ | rp
  · unfold State.doChdeadline
    rw [haddr]
    exact same h SameSched.stop
  · have hlock := h.rtsSet Proc.Banded.steady rp rtsSysLock
    have hlocked : (s.locked rp).Banded fun i => i = rp := by
      unfold locked
      split
      · exact withdraw hlock
      · exact hlock.mono
    rw [s.doChdeadline_eq haddr]
    refine Entries.rtsUnset Proc.Banded.steady ?_ rp (by decide)
    split <;> rename_i hd
    · have hdeclared : ((s.locked rp).declare rp (wrap32 (d * 60 + s.realtime))).Banded
          fun i => i = rp := by
        refine retimed hlocked (untimed_declare _ rp _) fun i hi hnone => ?_
        rwa [expTime_declare, if_neg hi] at hnone
      refine hdeclared.close fun _ hnone => ?_
      have hexp := ((s.locked rp).expTime_declare rp (wrap32 (d * 60 + s.realtime)) rp).trans (if_pos rfl)
      exact place_locked ((untimed_declare _ rp _).trans (s.untimed_locked))
        (hok rp haddr (.inr (hexp.symm.trans hnone)))
    · refine hlocked.close fun _ _ => place_locked (s.untimed_locked) ?_
      exact hok rp haddr (.inl (not_not.mp hd))

/-! ### Runs -/

/-- The conditions on deeds: the parent of a new process is alive.  Deadlines are declared
and withdrawn in `do_chdeadline` only. -/
def Ok (s : State) : Deed → Prop
  | .expire _ => True
  | .withdraw _ | .declare _ _ => False
  | .fork rpp _ => s.Alive rpp

theorem clockAct {due : State → TimerId → Prop} (h : s.Banded nobody) (hact : ClockAct due s s') :
    s'.Banded nobody := by
  cases hact with
  | sched hs => exact step h hs
  | balance rp => exact h.balanceProc Proc.Banded.steady
  | setTimer htp expTime watchdog =>
    refine retimed h (untimed_setTimer _ _ _ _) fun i _ hnone => ?_
    rwa [s.expTime_setTimer htp] at hnone
  | @expire tp _ _ =>
    refine retimed h (s.untimed_expire tp) fun i _ hnone => ?_
    have htimer := congrArg Timer.tmrExpTime (s.timer_expire tp (.deadline i))
    have hexp := hnone.symm.trans htimer
    split at hexp
    · have hnever : 0 = tmrNever := hexp
      exact nomatch hnever
    · exact hexp.symm

theorem rtsSetflags (h : s.Banded fun i => i = rp) (hf : isSet f rtsSlotFree = true) :
    (s.rtsSetflags rp f).Banded nobody := by
  have hset : (s.modProc rp fun p => p.setRts f).Banded fun i => i = rp :=
    h.setRts Proc.Banded.steady fun _ => hf
  refine (hset.unlinked Proc.Banded.steady (s.unlinked_rtsSetflags rp f)).close fun hlive => ?_
  rw [flags_rtsSetflags, if_pos rfl, hf] at hlive
  exact nomatch hlive

theorem act (h : s.Banded nobody) (hact : Act Ok s s') : s'.Banded nobody := by
  cases hact with
  | clock hact => exact clockAct h hact
  | resetTimer tp htp =>
    refine retimed h (untimed_resetTimer _ _) fun i _ hnone => ?_
    rwa [s.expTime_resetTimer htp] at hnone
  | alarm sp hf => exact retimed h (untimed_modTimer _ _) fun i _ hnone => hnone
  | place rp _ _ => exact h.modProc fun _ _ _ => le_refl _
  | withdraw rp hok => exact absurd hok id
  | declare rp _ hok => exact absurd hok id
  | @fork rpp rpc ep sys lin _ _ hok => exact h.modProc fun _ _ hnone => h rpp id hok hnone
  | free rc => exact rtsSetflags (withdraw h) (by decide)
  | unpriv sp => exact fun i hi => h i hi

theorem acts (h : s.Banded nobody) (hs : Acts Ok s s') : s'.Banded nobody :=
  run_keeps (P := fun t => t.Banded nobody) (fun _ _ ht hact => act ht hact) h hs

theorem doPrivctl (h : s.Banded nobody) {endpt : Int} {request : PrivRequest} :
    (s.doPrivctl endpt request).2.Banded nobody := by
  obtain ⟨t, hlights, hframe⟩ := s.doPrivctl_frame (μ := .any) trivial endpt request
  intro i hi
  rw [frame_proc Proc.Banded hframe i rfl]
  exact kernelSteps h hlights.steps i hi

end State.Banded

/-- A run in which slots are filled by forks of live processes only, and a deadline is
withdrawn only from a process that is not above its highest queue. -/
def BandRun (s : State) (op : Op) : Prop :=
  KernelRun s op ∧ match op with
    | .rtsUnset _ f => rtsSlotFree &&& f = 0#16
    | .rtsSetflags _ f => isSet f rtsSlotFree = true
    | .request _ (.fork parentE _ _) => ∀ rpp, s.isokendpt parentE = some rpp → s.Alive rpp
    | .request _ (.chdeadline n d) => ∀ rp, procAddr n = some rp →
        d = 0 ∨ wrap32 (d * 60 + s.realtime) = 0 → (s.proc rp).pMaxPriority ≤ (s.proc rp).pPriority
    | _ => True

instance (s : State) (op : Op) : Decidable (BandRun s op) := by
  induction op using Op.casesOn <;> try induction ‹KernelCall› using KernelCall.casesOn
  all_goals delta BandRun; infer_instance

namespace State.Banded

variable {s : State}

theorem schedcheck (h : s.Banded nobody) (hready : ReadyInv s) {env : SchedEnv} {fuel : Nat} :
    (s.schedcheck env fuel).2.Banded nobody := by
  refine (schedcheck_rule (P := fun t => ReadyInv t ∧ t.Banded nobody) ?_ ?_ ?_ ⟨hready, h⟩ fuel).2
  · exact fun t ht => ⟨ht.1.quiet rfl, ht.2⟩
  · intro t n ht hrun
    have hsteps := steps_workOff_any hrun (env.mapped n) (env.deferred n)
    exact ⟨ht.1.kernelSteps hsteps, kernelSteps ht.2 hsteps⟩
  · intro t n ht
    have hpick := ht.1.pickNew (env.rand n)
    exact ⟨⟨hpick.1, pickNew ht.2⟩, hpick.2⟩

theorem kernelCall (h : s.Banded nobody) {caller : Slot} {call : KernelCall}
    (hop : BandRun s (.request caller call)) : (call.run s).Banded nobody := by
  cases call with
  | privctl endpt request => exact doPrivctl h
  | chdeadline n d => exact doChdeadline h hop.2
  | fork parentE slot env =>
    exact acts h (KernelCall.acts fun rpp rpc hparent _ => hop.2 rpp hparent)
  | _ => exact acts h (KernelCall.acts trivial)

theorem op (h : s.Banded nobody) (hready : ReadyInv s) (op : Op) (hop : BandRun s op) : (op.run s).Banded nobody := by
  cases op with
  | rtsSet rp f => exact h.rtsSet Proc.Banded.steady rp f
  | rtsUnset rp f => exact h.rtsUnset Proc.Banded.steady rp hop.2
  | rtsSetflags rp f => exact rtsSetflags h.mono hop.2
  | requeue => exact h.requeueCurrent Proc.Banded.steady
  | schedcheck env fuel => exact schedcheck h hready
  | dispatch rp => exact h
  | clockTask => exact acts h (s.acts_clockTask fun _ _ _ _ _ => trivial).acts
  | balanceQueues => exact acts h s.acts_balanceQueues.acts
  | request caller call =>
    have hcaller : ({ s with whoP := caller } : State).Banded nobody := h
    exact kernelCall hcaller hop
  | trap t => exact kernelSteps h (Op.steps_any (o := .trap t) hop.1)
  | lockSend dstE m => exact kernelSteps h (Op.steps_any (o := .lockSend dstE m) hop.1)
  | delivermsg rp mapped => exact kernelSteps h (Op.steps_any (o := .delivermsg rp mapped) hop.1)
  | _ => exact kernelSteps h (Op.steps_any trivial)

theorem setScheduler (h : ∀ rp, (s.proc rp).pMaxPriority ≤ (s.proc rp).pPriority)
    (schedulerType : Int) : (s.setScheduler schedulerType).Banded nobody :=
  s.setScheduler_rule fun _ rp _ _ _ => h rp

end State.Banded

/-- Every live process without a deadline is on a queue from its highest one to 15. -/
def PriorityBand (s : State) : Prop :=
  ∀ rp, s.Alive rp → s.expTime rp = 0 →
    (s.proc rp).pMaxPriority ≤ (s.proc rp).pPriority ∧ (s.proc rp).pPriority ≤ 15

theorem boot_banded : ∀ rp, (boot.proc rp).pMaxPriority ≤ (boot.proc rp).pPriority := by
  decide +kernel

theorem priorityBand_of_kept {s : State} (h : Reachable BandRun s) : PriorityBand s := by
  obtain ⟨schedulerType, hrun⟩ := h
  obtain ⟨hready, hband⟩ := hrun.invariant (fun t => ReadyInv t ∧ t.Banded nobody)
    ⟨ReadyInv.bootWith schedulerType, State.Banded.setScheduler boot_banded schedulerType⟩
    fun t op ht hop => ⟨ht.1.op op hop.1, State.Banded.op ht.2 ht.1 op hop⟩
  exact fun rp hlive hnone => ⟨hband rp id hlive hnone, (hready.priority rp).2⟩

def initSlot : Slot := ⟨14, initSlot_lt⟩

/-- INIT, which may run in queue 8 and below, declares a deadline. -/
def initDeclares : List Op :=
  [.rtsUnset initSlot rtsNoPriv, .rtsUnset initSlot rtsVminhibit,
    .request pmSlot (.chdeadline 10 10)]

theorem priorityBand_initDeclares : PriorityBand (runOps (bootWith 2) initDeclares) :=
  priorityBand_of_kept ⟨2, reaches_runOps (by decide +kernel)⟩

/-- When INIT withdraws the deadline, it stays in queue 7. -/
theorem priorityBand_fails_withdrawn : ¬ ∀ s, Reachable KernelRun s → PriorityBand s := by
  intro hall
  have hband := hall (runOps (bootWith 2) (initDeclares ++ [.request pmSlot (.chdeadline 10 0)]))
    ⟨2, reaches_runOps (by decide +kernel)⟩
  have hinit := (hband initSlot (by decide +kernel) (by decide +kernel)).1
  exact absurd hinit (by decide +kernel)

end Minix.Kernel
