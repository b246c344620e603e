/-
  Kernel/Operation.lean --- the operations of the kernel, taken apart into steps and
  housekeeping.

  Kernel functions are sequences of `Step`s.  What the scheduler and the clock do on
  their own between them is housekeeping: processes move between the ready queues,
  priorities, quanta and timers change, and another process becomes the current one.
  Housekeeping touches no flag but `PREEMPTED` and `NO_QUANTUM`, and nothing that message
  passing, signals or privileges look at.

  An invariant that steps and housekeeping keep (`OpInv`) is kept by every operation but
  the few that begin or end processes or change privileges.
-/
import Minix.Kernel.MessageRun
import Minix.Kernel.DeadlineTimers

set_option autoImplicit false

namespace Minix.Kernel

open Minix.Foundation Relation State

/-! ## Housekeeping -/

/-- An entry without what the scheduler and the clock keep in it. -/
def Proc.core (p : Proc) : Proc :=
  { p with
    pRtsFlags := 0#16
    pPriority := 0
    pMaxPriority := 0
    pTicksLeft := 0
    pNextready := none
    pDeadline := ⟨none, 0, none, 0⟩ }

/-- The flags that the scheduler sets and clears on its own. -/
def rtsHousekeeping : BitVec 16 := rtsPreempted ||| rtsNoQuantum

namespace State

/-- The state without what the scheduler and the clock keep. -/
def core (s : State) : State :=
  { s with
    proc := fun i => (s.proc i).core
    priv := fun sp => (s.priv sp).untimed
    rdyHead := fun _ => none
    rdyTail := fun _ => none
    procPtr := idleSlot
    billPtr := idleSlot
    clockTimers := none
    nextTimeout := 0
    queueTimer := ⟨none, 0, none, 0⟩
    halt := none }

variable {s s' : State}

theorem core_of_unsched (h : s'.unsched = s.unsched) : s'.core = s.core :=
  frame_congr core h rfl

end State

/-- The scheduler and the clock have been at work. -/
structure Housekeeping (s s' : State) : Prop where
  core : s'.core = s.core
  flags : ∀ i f, f &&& rtsHousekeeping = 0#16 → s'.rtsIsset i f = s.rtsIsset i f
  free : s.FreeExact → s.Alive s.procPtr → s.Alive idleSlot → s'.FreeExact
  current : s.Alive s.procPtr → s.Alive idleSlot → s'.Alive s'.procPtr

namespace Housekeeping

variable {s s' : State}

theorem alive (h : Housekeeping s s') (i : Slot) : s'.Alive i ↔ s.Alive i := by
  rw [Alive, Alive, h.flags i _ (by decide)]

theorem refl {s : State} : Housekeeping s s :=
  ⟨rfl, fun _ _ _ => rfl, fun h _ _ => h, fun h _ => h⟩

theorem trans {s'' : State} (h : Housekeeping s s') (h' : Housekeeping s' s'') :
    Housekeeping s s'' where
  core := h'.core.trans h.core
  flags i f hf := (h'.flags i f hf).trans (h.flags i f hf)
  free hfree hcur hidle :=
    h'.free (h.free hfree hcur hidle) (h.current hcur hidle) ((h.alive _).mpr hidle)
  current hcur hidle := h'.current (h.current hcur hidle) ((h.alive _).mpr hidle)

/-- No flag changes, and the current process stays. -/
theorem of_core (h : s'.core = s.core)
    (hflags : ∀ i, (s'.proc i).pRtsFlags = (s.proc i).pRtsFlags)
    (hptr : s'.procPtr = s.procPtr) : Housekeeping s s' := by
  have hset : ∀ i f, s'.rtsIsset i f = s.rtsIsset i f := fun i f => by
    rw [rtsIsset, hflags]
    rfl
  refine ⟨h, fun i f _ => hset i f, fun hfree _ _ => hfree.of_flags hflags, fun hcur _ => ?_⟩
  rw [Alive, hset, hptr]
  exact hcur

theorem of_unlinked (h : s'.unlinked = s.unlinked) : Housekeeping s s' :=
  of_core (core_of_unsched (unsched_of_unlinked h))
    (fun i => frame_proc Proc.pRtsFlags h i rfl)
    (frame_congr procPtr h rfl)

theorem of_untimed (h : s'.untimed = s.untimed) : Housekeeping s s' :=
  of_core (frame_congr State.core h rfl)
    (fun i => frame_proc Proc.pRtsFlags h i rfl)
    (frame_congr procPtr h rfl)

/-- A change of what the scheduler writes, in which only the current process gets flags
of the scheduler. -/
theorem of_unsched (h : s'.unsched = s.unsched)
    (hflags : ∀ i f, f &&& rtsHousekeeping = 0#16 → s'.rtsIsset i f = s.rtsIsset i f)
    (hothers : ∀ i, i ≠ s.procPtr → (s'.proc i).pRtsFlags = (s.proc i).pRtsFlags) :
    Housekeeping s s' := by
  have hptr : s'.procPtr = s.procPtr := frame_congr procPtr h rfl
  refine ⟨core_of_unsched h, hflags, fun hfree hcur _ i hi => ?_, fun hcur _ => ?_⟩
  · rw [hflags i _ (by decide)] at hi
    have hne : i ≠ s.procPtr := by
      rintro rfl
      exact nomatch hcur.symm.trans hi
    rw [hothers i hne]
    exact hfree i hi
  · rw [Alive, hflags _ _ (by decide), hptr]
    exact hcur

variable (s : State)

theorem enqueue {rp : Slot} : Housekeeping s (s.enqueue rp) := by
  refine of_unsched (s.unsched_enqueue rp) (fun i f hf => ?_) fun i hi => ?_
  · rcases s.flags_enqueue rp with h | ⟨_, _, h⟩
    · rw [rtsIsset, h]
      rfl
    · rw [rtsIsset, h, isSet_or_of_disjoint]
      · rfl
      · rw [BitVec.and_comm]
        exact disjoint_of_isSet (by decide) ((BitVec.and_comm _ _).trans hf)
  · rcases s.flags_enqueue rp with h | ⟨hptr, _, _⟩
    · exact h
    · exact absurd hptr hi

/-- A write to fields of an entry that the scheduler keeps. -/
theorem modProc (rp : Slot) {f : Proc → Proc}
    (hcore : ∀ p : Proc, (f p).core = p.core) (hflags : ∀ p : Proc, (f p).pRtsFlags = p.pRtsFlags) :
    Housekeeping s (s.modProc rp f) := by
  refine of_core ?_ (modProc_congr s rp _ (hflags _)) rfl
  have hproc : ∀ i, ((s.modProc rp f).proc i).core = (s.proc i).core :=
    modProc_congr s rp _ (hcore _)
  simp only [State.core, hproc]
  rfl

/-- Another process becomes the current one. -/
theorem setProcPtr {rp : Slot} (h : s.Alive idleSlot → s.Alive rp) :
    Housekeeping s { s with procPtr := rp } :=
  ⟨rfl, fun _ _ _ => rfl, fun hfree _ _ => hfree, fun _ hidle => h hidle⟩

theorem clearPreempted : Housekeeping s
    (s.modProc s.procPtr fun p => p.setRts (clearBits p.pRtsFlags rtsPreempted)) := by
  refine of_unsched (unsched_modProc _ fun _ => rfl) (fun i f hf => ?_) fun i hi => ?_
  · rw [rtsIsset, modProc_proc]
    split_ifs with hi
    · rw [hi]
      exact isSet_clearBits_of_disjoint
        ((BitVec.and_comm _ _).trans (disjoint_of_isSet (by decide) ((BitVec.and_comm _ _).trans hf)))
    · rfl
  · rw [modProc_proc_of_ne _ _ _ hi]

/-- The quantum of the current process is renewed. -/
theorem clearNoQuantum : Housekeeping s (s.rtsUnset s.procPtr rtsNoQuantum) := by
  refine of_unsched (unsched_rtsUnset _ _ _) (fun i f hf => ?_) fun i hi => ?_
  · have hd : ∀ g, isSet rtsHousekeeping g = true → f &&& g = 0#16 := fun g hg =>
      (BitVec.and_comm _ _).trans (disjoint_of_isSet hg ((BitVec.and_comm _ _).trans hf))
    exact rtsIsset_rtsUnset_of_disjoint s _ i (hd _ (by decide)) (hd _ (by decide))
  · rcases flags_rtsUnset s s.procPtr with h | ⟨hptr, hne, _⟩
    · rw [h, if_neg hi]
    · exact absurd hptr hne

theorem requeueCurrent : Housekeeping s s.requeueCurrent :=
  requeueCurrent_rule (fun _ => refl)
    (fun _ _ => (clearPreempted s).trans (of_unlinked unlinked_enqueueHead))
    (fun _ _ => clearPreempted s) fun t ht _ => ht.trans (clearNoQuantum t)

end Housekeeping

/-- `pick_proc` changes nothing but the process that is billed. -/
theorem State.pickProc_state (s : State) {rand : Nat} :
    ∃ b h, (s.pickProc rand).2 = { s with billPtr := b, halt := h } := by
  have hbill : ∀ rp, ∃ b h, s.bill rp = { s with billPtr := b, halt := h } := by
    intro rp
    unfold bill
    split
    · exact ⟨rp, s.halt, rfl⟩
    · exact ⟨s.billPtr, s.halt, rfl⟩
  unfold pickProc
  split
  · unfold pickRoundRobin
    split
    · exact ⟨s.billPtr, s.halt, rfl⟩
    · exact hbill _
  · unfold pickLottery
    dsimp only
    repeat' split
    all_goals first
      | exact hbill _
      | exact ⟨s.billPtr, _, rfl⟩
  · unfold pickEdf
    repeat' split
    all_goals first
      | exact hbill _
      | exact ⟨s.billPtr, _, rfl⟩

namespace Housekeeping

variable {s s' : State}

theorem bill {s : State} {rp : Slot} : Housekeeping s (s.bill rp) := by
  unfold State.bill
  split
  · exact of_core rfl (fun _ => rfl) rfl
  · exact refl

theorem pickNew (h : ReadyInv s) {rand : Nat} : Housekeeping s (s.pickNew rand).2 := by
  have hreq := requeueCurrent s
  obtain ⟨b, halted, hstate⟩ := s.requeueCurrent.pickProc_state
  have hpicked : Housekeeping s (s.requeueCurrent.pickProc rand).2 := by
    rw [hstate]
    exact hreq.trans (of_core rfl (fun _ => rfl) rfl)
  unfold State.pickNew
  split
  · rename_i s1 hpick
    rw [hpick] at hpicked hstate
    have hrun := pickProc_runnable h.requeueCurrent (congrArg Prod.fst hpick)
    refine hpicked.trans (setProcPtr s1 fun _ => alive_of_runnable ?_)
    simp only at hstate
    rw [procIsRunnable, hstate]
    simpa using hrun
  · rename_i s1 hpick
    rw [hpick] at hpicked
    exact (hpicked.trans (setProcPtr s1 id)).trans bill

theorem balanceProc {s : State} {rp : Slot} : Housekeeping s (s.balanceProc rp) :=
  balanceProc_rule (P := Housekeeping s) refl
    (fun _ ht => ht.trans (of_unlinked unlinked_dequeue))
    (fun t ht => ht.trans (modProc t rp (fun _ => rfl) fun _ => rfl))
    (fun t ht => ht.trans (enqueue t))
    fun t ht => ht.trans (modProc t rp (fun _ => rfl) fun _ => rfl)

theorem balanceQueues {s : State} : Housekeeping s s.balanceQueues :=
  (balanceLoop_rule (P := Housekeeping s) (fun t rp ht => ht.trans balanceProc)
    refl 0 _).trans (of_untimed (untimed_setTimer _ _ _ _))

end Housekeeping

/-! ## Invariants of operations -/

/-- An invariant that steps and housekeeping keep, of states with a sound table unless the
mode needs no such thing. -/
structure OpInv (μ : Mode) (Inv : State → Prop) : Prop where
  step : ∀ {s s' : State}, Inv s → Step μ s s' → Inv s'
  house : ∀ {s s' : State}, Inv s → Housekeeping s s' → Inv s'
  sound : μ.zombie ∧ μ.tornTable ∨ ∀ {s : State}, Inv s → s.Sound

namespace OpInv

variable {μ : Mode} {Inv : State → Prop} {s s' : State}

variable (hop : OpInv μ Inv)
include hop

theorem steps (h : Inv s) (hsteps : Steps μ s s') : Inv s' := by
  induction hsteps with
  | refl => exact h
  | tail _ hstep ih => exact hop.step ih hstep

theorem lights (h : Inv s) (hlights : Lights μ s s') : Inv s' :=
  hop.steps h hlights.steps

theorem quiet (h : Inv s) (herase : s'.erase = s.erase) : Inv s' :=
  hop.lights h (lights_of_erase herase)

theorem good (h : Inv s) : Good μ s :=
  hop.sound.imp_right fun hsound _ hsteps => hsound (hop.steps h hsteps)

/-- `schedcheck` works off what the current process has to do and picks processes. -/
theorem schedcheck (h : Inv s) (hready : ReadyInv s) {env : SchedEnv}
    (henv : μ.tornTable ∨ ∀ n, State.NoTear (env.deferred n).env) (hself : μ.selfWait) {fuel : Nat} :
    Inv (s.schedcheck env fuel).2 := by
  refine (schedcheck_rule (P := fun t => Inv t ∧ ReadyInv t) ?_ ?_ ?_ ⟨h, hready⟩ fuel).1
  · exact fun t ht => ⟨hop.quiet ht.1 rfl, ht.2.quiet rfl⟩
  · intro t n ht hrun
    have hsteps := steps_workOff (hop.good ht.1) hrun (env.mapped n)
      (henv.imp_right fun hall => hall n) hself
    exact ⟨hop.steps ht.1 hsteps, ht.2.kernelSteps hsteps⟩
  · intro t n ht
    have hpick := ht.2.pickNew (env.rand n)
    exact ⟨⟨hop.house ht.1 (.pickNew ht.2), hpick.1⟩, hpick.2⟩

theorem clockTask (hzombie : μ.zombie) (h : Inv s) : Inv s.clockTask := by
  refine hop.quiet (tmrsExptimers_rule (P := Inv) (n := s.realtime)
    (fun t halt ht => hop.quiet ht rfl) (fun t tp ht _ _ => ?_) (fun t arg watchdog ht => ?_) h
    (nrTimers + 1)) rfl
  · exact hop.house ht (.of_untimed (untimed_modTimer _ tp))
  · exact runWatchdog_rule hzombie (fun _ hs => hop.steps ht hs)
      (hop.house ht .balanceQueues) arg watchdog

theorem doNice (h : Inv s) (endpt pri : Int) : Inv (s.doNice endpt pri).2 := by
  refine doNice_rule h fun rp hrp => ?_
  have hlock := hop.step h (.light (.set s rp (f := rtsSysLock) (by decide) (by decide)
    (Good.names (hop.good h) hrp).alive))
  have hpri := hop.house hlock (.modProc _ rp (f := fun p =>
    { p with pMaxPriority := niceQueue pri, pPriority := niceQueue pri })
    (fun _ => rfl) fun _ => rfl)
  exact hop.step hpri (.light (.unset _ rp (by decide)))

theorem doChdeadline (h : Inv s) {n : Int}
    (hlive : ∀ rp, procAddr n = some rp → μ.zombie ∨ s.Alive rp) {deadline : Int} :
    Inv (s.doChdeadline n deadline).2 := by
  unfold State.doChdeadline
  split
  · exact hop.quiet h rfl
  rename_i rp hrp
  have hlock := hop.step h (.light (.set s rp (f := rtsSysLock) (by decide) (by decide) (hlive rp hrp)))
  -- Only timers change while the process is locked.
  refine hop.step (hop.house hlock (.of_untimed ?_)) (.light (.unset _ rp (by decide)))
  repeat' split
  all_goals simp

theorem doSetalarm (h : Inv s) {expTime : Int} {useAbsTime : Bool} :
    Inv (s.doSetalarm expTime useAbsTime).2.2 := by
  refine hop.house h (.of_untimed ?_)
  unfold State.doSetalarm
  repeat' split
  all_goals simp

end OpInv

/-- What an operation has to see to so that it is made of steps of mode `μ` and of
housekeeping.  The operations that begin or end processes or change privileges are not. -/
def Op.Regular (μ : Mode) (s : State) : Op → Prop
  | .rtsSet rp f => f ≠ 0#16 ∧ rtsOwned &&& f = 0#16 ∧ (μ.zombie ∨ s.Alive rp)
  | .rtsUnset _ f => rtsOwned &&& f = 0#16
  | .dispatch rp => s.procIsRunnable rp = true
  | .trap t => s.procIsRunnable s.procPtr = true ∧
      (μ.tornTable ∨ s.mfIsset s.procPtr mfDelivermsg = false ∧ State.NoTear t.env) ∧
      (μ.selfWait ∨ ¬ s.NamesCaller s.procPtr t)
  | .lockSend dstE _ => s.MayReply dstE ∧
      (μ.tornTable ∨ s.mfIsset s.procPtr mfDelivermsg = false) ∧
      (μ.selfWait ∨ s.isokendpt dstE ≠ some s.procPtr)
  | .schedcheck env _ => (μ.tornTable ∨ ∀ n, State.NoTear (env.deferred n).env) ∧ μ.selfWait
  | .tick => State.Charged μ s
  | .signal rp _ => μ.zombie ∨ s.Alive rp
  | .clearEndpoint _ | .request _ (.kill _ _) => μ.deaths
  | .delivermsg rp _ => s.mfIsset rp mfDelivermsg = true ∧ (μ.zombie ∨ s.Alive rp)
  | .request _ (.chdeadline n _) => ∀ rp, procAddr n = some rp → μ.zombie ∨ s.Alive rp
  | .request _ (.exec endpt) => μ.discards ∨
      ∀ rp, s.isokendpt endpt = some rp → s.mfIsset rp mfDelivermsg = false
  | .request _ .getksig | .request _ (.endksig _) => μ.handshake
  | .store _ _ _ | .requeue | .balanceQueues | .notify _ _ | .request _ (.nice _ _)
  | .request _ (.vtimer _ _ _ _)
  | .request _ (.setalarm _ _) => True
  | .rtsSetflags _ _ | .clockTask | .request _ (.fork _ _ _) | .request _ (.exit _)
  | .request _ (.privctl _ _) => False

/-- A regular operation keeps what steps and housekeeping keep. -/
theorem OpInv.op {μ : Mode} {Inv : State → Prop} (hop : OpInv μ Inv) {s : State} (h : Inv s)
    (hready : ReadyInv s) {op : Op} (hreg : op.Regular μ s) : Inv (op.run s) := by
  cases op with
  | rtsSet rp f => exact hop.step h (.light (.set s rp hreg.1 hreg.2.1 hreg.2.2))
  | rtsUnset rp f => exact hop.step h (.light (.unset s rp hreg))
  | dispatch rp => exact hop.house h (.setProcPtr s fun _ => alive_of_runnable hreg)
  | trap t =>
    obtain ⟨hrun, hslot, hself⟩ := hreg
    exact hop.steps h (s.run_trap (hop.good h)
      (s.canTake_of_runnable hrun (hslot.imp_right And.left)) (hslot.imp_right And.right) hself).steps
  | lockSend dstE m =>
    exact hop.steps h (s.run_lockSend (hop.good h) hreg.1 hreg.2.1 hreg.2.2).steps
  | schedcheck env fuel => exact hop.schedcheck h hready hreg.1 hreg.2
  | tick => exact hop.lights h (s.lights_bspTimerIntHandler hreg).lights
  | signal rp sig => exact hop.lights h (s.lights_causeSig hreg sig).lights
  | clearEndpoint rc => exact hop.steps h (s.steps_clearEndpoint hreg rc (hop.good h).live)
  | delivermsg rp mapped => exact hop.steps h (s.steps_delivermsg hreg.1 hreg.2 mapped)
  | store rp addr entry => exact hop.quiet h (s.erase_modEntry rp addr fun _ => entry)
  | requeue => exact hop.house h (.requeueCurrent s)
  | balanceQueues => exact hop.house h .balanceQueues
  | notify src dstE => exact hop.lights h (s.lights_miniNotify src dstE).lights
  | request caller call =>
    have hcaller : Inv { s with whoP := caller } := hop.quiet h rfl
    cases call with
    | nice endpt pri => exact hop.doNice hcaller endpt pri
    | chdeadline n deadline => exact hop.doChdeadline hcaller hreg
    | exec endpt => exact hop.steps hcaller (steps_doExec _ hreg)
    | kill endpt sig =>
      exact hop.steps hcaller (steps_doKill _ hreg (hop.good hcaller))
    | getksig => exact hop.steps hcaller (steps_doGetksig _ hreg)
    | endksig endpt => exact hop.lights hcaller (lights_doEndksig _ hreg)
    | vtimer endpt which set value =>
      exact hop.quiet hcaller (erase_doVtimer _)
    | setalarm expTime useAbsTime => exact hop.doSetalarm hcaller
    | fork _ _ _ | exit _ | privctl _ _ => exact absurd hreg id
  | rtsSetflags _ _ | clockTask => exact absurd hreg id

end Minix.Kernel
