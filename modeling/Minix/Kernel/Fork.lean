/-
  Kernel/Fork.lean --- what a fork does to the queues and chains of the kernel.

  `do_fork` copies the whole entry of the parent into a free slot and then sets some
  fields anew.  Links, heads of lists, timers and flags that it does not set are the
  parent's.  `ForkPreserves` says what a fork should leave behind, and `ForkSafe` says,
  of the state before the fork, exactly when it does.

  The members of a queue are the processes that its links lead to (`Links.Visits`); the
  links of a slot that was left on a chain need not end.
-/
import Minix.Kernel.ReadyRun
import Minix.Kernel.SenderQueue

set_option autoImplicit false

namespace Minix.Kernel

open Minix.Foundation

namespace State

/-! ## The chains of VM -/

/-- Memory requests that VM has not seen, through `p_vmrequest.nextrequestor`. -/
def vmrequestLinks (s : State) : Links Unit Slot where
  head _ := s.vmrequest
  next rp := (s.proc rp).vmNextrequestor

/-- Kernel calls to be restarted, through `p_vmrequest.nextrestart`. -/
def vmrestartLinks (s : State) : Links Unit Slot where
  head _ := s.vmrestart
  next rp := (s.proc rp).vmNextrestart

/-- Page faults, through `p_nextpagefault`. -/
def pagefaultLinks (s : State) : Links Unit Slot where
  head _ := s.pagefaults
  next rp := (s.proc rp).pNextpagefault

/-! ## Successful forks -/

/-- The tests of `do_fork` succeed: `rpp` is the parent and `rpc` the slot of the child. -/
structure Forks (s : State) (parentE slot : Int) (rpp rpc : Slot) : Prop where
  parent : s.isokendpt parentE = some rpp
  child : procAddr slot = some rpc
  free : s.isemptyp rpc = true
  receiving : s.rtsIsset rpp rtsReceiving = true

/-- The flag word of the child. -/
def childFlags (s : State) (rpp : Slot) (env : ForkEnv) : BitVec 16 :=
  let base :=
    if isSet (s.privOf rpp).sFlags sysProc then (s.proc rpp).pRtsFlags ||| rtsNoPriv
    else (s.proc rpp).pRtsFlags
  clearBits (if env.vminhibit then base ||| rtsVminhibit else base)
    (rtsSignaled ||| rtsSigPending ||| rtsPStop)

/-- The entry of the child when `do_fork` returns. -/
def childProc (s : State) (rpp rpc : Slot) (env : ForkEnv) : Proc :=
  { forkedProc (s.proc rpp) rpc (s.proc rpc).pEndpoint (isSet (s.privOf rpp).sFlags sysProc)
      env.delivermsgLin with
    pRtsFlags := s.childFlags rpp env
    pPending := 0 }

variable {s : State} {parentE slot : Int} {rpp rpc : Slot}

theorem Forks.ne (h : s.Forks parentE slot rpp rpc) : rpc ≠ rpp := by
  rintro rfl
  obtain ⟨_, hempty, _⟩ := (s.isokendpt_eq_some_iff rpc).mp h.parent
  rw [h.free] at hempty
  exact nomatch hempty

theorem childFlags_receiving (h : s.Forks parentE slot rpp rpc) (env : ForkEnv) :
    isSet (s.childFlags rpp env) rtsReceiving = true := by
  have hrecv : isSet (s.proc rpp).pRtsFlags rtsReceiving = true := h.receiving
  unfold childFlags
  rw [isSet_clearBits_of_disjoint (by decide)]
  repeat' split
  all_goals first
    | exact hrecv
    | exact isSet_or_of_isSet _ hrecv
    | exact isSet_or_of_isSet _ (isSet_or_of_isSet _ hrecv)

/-- The macros on a process that is and stays blocked. -/
theorem rtsSet_of_blocked {t : State} {rp : Slot} (h : (t.proc rp).pRtsFlags ≠ 0#16)
    (f : BitVec 16) : t.rtsSet rp f = t.modProc rp fun p => p.setRts (p.pRtsFlags ||| f) := by
  have hrun : t.procIsRunnable rp = false := by simpa [procIsRunnable] using h
  simp [rtsSet, hrun]

theorem rtsUnset_of_blocked {t : State} {rp : Slot} {f : BitVec 16}
    (h : clearBits (t.proc rp).pRtsFlags f ≠ 0#16) :
    t.rtsUnset rp f = t.modProc rp fun p => p.setRts (clearBits p.pRtsFlags f) := by
  have hrun : (t.modProc rp fun p => p.setRts (clearBits p.pRtsFlags f)).procIsRunnable rp =
      false := by
    simpa [procIsRunnable, Proc.setRts] using h
  simp [rtsUnset, hrun]

/-- The child does not become runnable, so the macros write only its flag word: a fork
writes the entries of the parent and of the child and nothing else. -/
theorem doFork_eq (h : s.Forks parentE slot rpp rpc) (env : ForkEnv) :
    (s.doFork parentE slot env).2 = (s.modProc rpp fun p =>
      { p with pTicksLeft := (s.proc rpp).pTicksLeft.tdiv 2 }).modProc rpc fun _ =>
        s.childProc rpp rpc env := by
  have hne := h.ne
  obtain ⟨_, hempty, _⟩ := (s.isokendpt_eq_some_iff rpp).mp h.parent
  have hrecv := childFlags_receiving h env
  have hrecvNe : ∀ {x : BitVec 16}, isSet x rtsReceiving = true → x ≠ 0#16 := fun hx =>
    ne_zero_of_isSet (by decide) hx
  unfold doFork
  rw [h.parent, h.child]
  dsimp only
  rw [hempty, h.free, h.receiving]
  rw [s.modProc_comm rpc hne]
  generalize s.modProc rpp (fun p =>
    { p with pTicksLeft := (s.proc rpp).pTicksLeft.tdiv 2 }) = s1
  set child := forkedProc (s.proc rpp) rpc (s.proc rpc).pEndpoint
    (isSet (s.privOf rpp).sFlags sysProc) env.delivermsgLin
  have hself : (s1.modProc rpc fun _ => child).proc rpc = child := by simp
  have hflags : child.pRtsFlags = if isSet (s.privOf rpp).sFlags sysProc then
      (s.proc rpp).pRtsFlags ||| rtsNoPriv else (s.proc rpp).pRtsFlags := rfl
  have hbase : isSet child.pRtsFlags rtsReceiving = true := by
    rw [hflags]
    split
    · exact isSet_or_of_isSet _ h.receiving
    · exact h.receiving
  have hset : (if env.vminhibit then (s1.modProc rpc fun _ => child).rtsSet rpc rtsVminhibit
      else s1.modProc rpc fun _ => child) = s1.modProc rpc fun _ => child.setRts
        (if env.vminhibit then child.pRtsFlags ||| rtsVminhibit else child.pRtsFlags) := by
    split
    · rw [rtsSet_of_blocked (by rw [hself]; exact hrecvNe hbase), modProc_modProc]
    · rfl
  rw [hset, rtsUnset_of_blocked, modProc_modProc, modProc_modProc]
  · rfl
  · rw [modProc_proc_self]
    have hword := hrecv
    exact hrecvNe hword

/-! ## What a fork should leave behind -/

/-- Every queue and chain that there was has the same members: the queues of senders of
the other processes, the ready queues, the timers and the chains of VM. -/
structure SameMembers (s s' : State) (rpc : Slot) : Prop where
  callers : ∀ d, d ≠ rpc → ∀ x, s'.callerLinks.Visits (.head d) x ↔ s.callerLinks.Visits (.head d) x
  ready : ∀ q x, s'.readyLinks.Visits (.head q) x ↔ s.readyLinks.Visits (.head q) x
  timers : ∀ x, s'.timerLinks.Visits (.head ()) x ↔ s.timerLinks.Visits (.head ()) x
  vmrequest : ∀ x, s'.vmrequestLinks.Visits (.head ()) x ↔ s.vmrequestLinks.Visits (.head ()) x
  vmrestart : ∀ x, s'.vmrestartLinks.Visits (.head ()) x ↔ s.vmrestartLinks.Visits (.head ()) x
  pagefaults : ∀ x, s'.pagefaultLinks.Visits (.head ()) x ↔ s.pagefaultLinks.Visits (.head ()) x

/-- The slot is on no chain of VM. -/
def OffVmChains (s : State) (rp : Slot) : Prop :=
  ¬ s.vmrequestLinks.Visits (.head ()) rp ∧ ¬ s.vmrestartLinks.Visits (.head ()) rp ∧
    ¬ s.pagefaultLinks.Visits (.head ()) rp

/-- The child starts afresh, and nobody else notices. -/
structure ForkPreserves (s s' : State) (rpc : Slot) : Prop where
  /-- Nobody is on the queue of the child: nobody can be sending to its new endpoint. -/
  callers : ∀ x, ¬ s'.callerLinks.Visits (.head rpc) x
  /-- The child is on no queue of senders. -/
  queued : ∀ d, d ≠ rpc → ¬ s'.callerLinks.Visits (.head d) rpc
  ready : ∀ q, s'.readyLinks.Visits (.head q) rpc → s'.procIsRunnable rpc = true
  signals : (s'.proc rpc).pPending = 0 ∧ s'.rtsIsset rpc rtsSignaled = false ∧
    s'.rtsIsset rpc rtsSigPending = false
  /-- The timer of the child is not registered, and does not look as if it were. -/
  timer : ¬ s'.timerLinks.Visits (.head ()) (.deadline rpc) ∧
    ¬ 0 < (s'.proc rpc).pDeadline.tmrExpTime
  vm : s'.OffVmChains rpc ∧ s'.rtsIsset rpc rtsVmrequest = false
  /-- No message waits to be delivered to the child, or to be taken from it. -/
  message : s'.mfIsset rpc mfDelivermsg = false ∧ s'.rtsIsset rpc rtsSending = false
  members : SameMembers s s' rpc

/-- The parent has no senders waiting, no deadline, no request to VM and no message under
way, and the slot of the child has not been left on a queue or chain. -/
structure ForkSafe (s : State) (rpp rpc : Slot) : Prop where
  callers : (s.proc rpp).pCallerQ = none
  sending : s.rtsIsset rpp rtsSending = false
  delivery : s.mfIsset rpp mfDelivermsg = false
  deadline : ¬ 0 < (s.proc rpp).pDeadline.tmrExpTime
  request : s.rtsIsset rpp rtsVmrequest = false
  queued : ∀ d, d ≠ rpc → ¬ s.callerLinks.Visits (.head d) rpc
  timer : ¬ s.timerLinks.Visits (.head ()) (.deadline rpc)
  vm : s.OffVmChains rpc

variable (env : ForkEnv)

section

variable (h : s.Forks parentE slot rpp rpc)
include h

/-- The entries of the other slots are those before the fork, but for the parent's ticks. -/
theorem fork_others {α : Type} (k : Proc → α) (hk : ∀ (p : Proc) (n : Int), k { p with pTicksLeft := n } = k p) {i : Slot} (hi : i ≠ rpc) :
    k ((s.doFork parentE slot env).2.proc i) = k (s.proc i) := by
  rw [doFork_eq h, modProc_proc_of_ne _ _ _ hi]
  exact s.modProc_congr rpp k (hk _ _) i

/-- The entry of the child. -/
theorem fork_child : (s.doFork parentE slot env).2.proc rpc = s.childProc rpp rpc env := by
  rw [doFork_eq h, modProc_proc_self]

/-- The child has the parent's flags, apart from those about signals and tracing and those
that forbid it to run. -/
theorem fork_flag {f : BitVec 16}
    (hclear : f &&& (rtsSignaled ||| rtsSigPending ||| rtsPStop) = 0#16)
    (hpriv : f &&& rtsNoPriv = 0#16) (hvm : f &&& rtsVminhibit = 0#16) :
    (s.doFork parentE slot env).2.rtsIsset rpc f = s.rtsIsset rpp f := by
  rw [rtsIsset, fork_child env h]
  simp only [childProc, childFlags]
  rw [isSet_clearBits_of_disjoint hclear]
  repeat' split
  all_goals simp only [isSet_or_of_disjoint hpriv, isSet_or_of_disjoint hvm, rtsIsset]

end

/-- A request to fork that does not succeed changes nothing. -/
theorem doFork_cases (parentE slot : Int) : (s.doFork parentE slot env).2 = s ∨
    (s.doFork parentE slot env).2 = s.stop .wild ∨ ∃ rpp rpc, s.Forks parentE slot rpp rpc := by
  rcases hparent : s.isokendpt parentE with _ | rpp
  · exact .inl (by rw [doFork, hparent])
  rcases hchild : procAddr slot with _ | rpc
  · exact .inr (.inl (by rw [doFork, hparent, hchild]))
  by_cases hempty : (s.isemptyp rpp || !s.isemptyp rpc) = true
  · refine .inl ?_
    rw [doFork, hparent, hchild]
    simp [hempty]
  · by_cases hrecv : s.rtsIsset rpp rtsReceiving = true
    · simp only [Bool.or_eq_true, Bool.not_eq_true', not_or] at hempty
      exact .inr (.inr ⟨rpp, rpc, hparent, hchild, by simpa using hempty.2, hrecv⟩)
    · refine .inl ?_
      rw [doFork, hparent, hchild]
      simp [hempty, hrecv]

section

variable (h : s.Forks parentE slot rpp rpc)
include h

/-- A fork gives the slot of the child to a process. -/
theorem fork_alive (i : Slot) : (s.doFork parentE slot env).2.rtsIsset i rtsSlotFree =
      if i = rpc then s.rtsIsset rpp rtsSlotFree else s.rtsIsset i rtsSlotFree := by
  split_ifs with hi
  · rw [hi, fork_flag env h (by decide) (by decide) (by decide)]
  · exact fork_others env h (fun p => isSet p.pRtsFlags rtsSlotFree) (fun _ _ => rfl) hi

theorem fork_signals : ((s.doFork parentE slot env).2.proc rpc).pPending = 0 ∧
      (s.doFork parentE slot env).2.rtsIsset rpc rtsSignaled = false ∧
      (s.doFork parentE slot env).2.rtsIsset rpc rtsSigPending = false := by
  simp only [rtsIsset, fork_child env h]
  exact ⟨rfl, isSet_clearBits_of_isSet (by decide) (by decide),
    isSet_clearBits_of_isSet (by decide) (by decide)⟩

/-- In a chain of which a fork writes no more than the link of the child, the way to the child and
the ways around it stay. -/
theorem fork_visits {H : Type} (links : State → Links H Slot) (k : Proc → Option Slot)
    (hk : ∀ (p : Proc) (n : Int), k { p with pTicksLeft := n } = k p) (hnext : ∀ t i, (links t).next i = k (t.proc i))
    {r : Ref H Slot} (hr : (links (s.doFork parentE slot env).2).get r = (links s).get r) {x : Slot}
    (hx : x = rpc ∨ ¬ (links s).Visits r rpc) :
    (links (s.doFork parentE slot env).2).Visits r x ↔ (links s).Visits r x :=
  Links.visits_congr hr (fun y hy => by rw [hnext, hnext]; exact fork_others env h k hk hy) hx

theorem fork_timerLinks :
    (s.doFork parentE slot env).2.timerLinks.get (.head ()) = s.timerLinks.get (.head ()) ∧
      ∀ tp, tp ≠ .deadline rpc →
        (s.doFork parentE slot env).2.timerLinks.next tp = s.timerLinks.next tp := by
  rw [doFork_eq h]
  refine ⟨rfl, fun tp htp => ?_⟩
  cases tp with
  | deadline i =>
    have hi : i ≠ rpc := fun heq => htp (by rw [heq])
    simp only [timerLinks, timer, modProc_proc_of_ne _ _ _ hi]
    exact congrArg Timer.tmrNext (s.modProc_congr rpp Proc.pDeadline rfl i)
  | alarm sp => rfl
  | queue => rfl

end

/-- A slot that is not runnable is on no ready queue. -/
theorem not_ready_of_blocked (hready : ReadyInv s) {rp : Slot} (h : (s.proc rp).pRtsFlags ≠ 0#16)
    (q : Int) : ¬ s.readyLinks.Visits (.head q) rp := by
  obtain ⟨Q, hQ⟩ := hready.rep
  rw [(hQ.path q).visits_iff]
  exact fun hmem => h ((hQ.mem q rp).mp hmem).1

end State

open State

/-- A fork preserves the structure of queues, chains and timers exactly if nothing that
it copies is in use, and the slot is not. -/
theorem forkPreserves_iff_forkSafe {s : State} {parentE slot : Int} {rpp rpc : Slot}
    (hreach : Reachable KernelRun s) (h : s.Forks parentE slot rpp rpc) (env : ForkEnv) :
    s.ForkPreserves (s.doFork parentE slot env).2 rpc ↔ s.ForkSafe rpp rpc := by
  have hfree : (s.proc rpc).pRtsFlags = rtsSlotFree := by simpa [isemptyp] using h.free
  have hready := not_ready_of_blocked (ReadyInv.reachable hreach)
    (show (s.proc rpc).pRtsFlags ≠ 0#16 by rw [hfree]; decide)
  have hchild := fork_child env h
  have hcaller := fun d (hd : d ≠ rpc) x => fork_visits env h callerLinks Proc.pQLink (fun _ _ => rfl) (fun _ _ => rfl)
    (r := .head d) (fork_others env h Proc.pCallerQ (fun _ _ => rfl) hd) (x := x)
  have hreadies := fun q x => fork_visits env h readyLinks Proc.pNextready (fun _ _ => rfl) (fun _ _ => rfl)
    (r := .head q) (by rw [doFork_eq h]; rfl) (x := x)
  have hrequest := fun x => fork_visits env h vmrequestLinks Proc.vmNextrequestor (fun _ _ => rfl) (fun _ _ => rfl)
    (r := .head ()) (by rw [doFork_eq h]; rfl) (x := x)
  have hrestart := fun x => fork_visits env h vmrestartLinks Proc.vmNextrestart (fun _ _ => rfl) (fun _ _ => rfl)
    (r := .head ()) (by rw [doFork_eq h]; rfl) (x := x)
  have hfault := fun x => fork_visits env h pagefaultLinks Proc.pNextpagefault (fun _ _ => rfl) (fun _ _ => rfl)
    (r := .head ()) (by rw [doFork_eq h]; rfl) (x := x)
  have htimer := fun x => Links.visits_congr (x := x) (fork_timerLinks env h).1 (fork_timerLinks env h).2
  have hsending := fork_flag env h (f := rtsSending) (by decide) (by decide) (by decide)
  have hvm := fork_flag env h (f := rtsVmrequest) (by decide) (by decide) (by decide)
  have hdelivery : (s.doFork parentE slot env).2.mfIsset rpc mfDelivermsg =
      s.mfIsset rpp mfDelivermsg := by
    rw [mfIsset, hchild]
    exact isSet_clearBits_of_disjoint (by decide)
  have hexp : ((s.doFork parentE slot env).2.proc rpc).pDeadline.tmrExpTime =
      (s.proc rpp).pDeadline.tmrExpTime := by
    rw [hchild]
    rfl
  have hhead : (s.doFork parentE slot env).2.callerLinks.get (.head rpc) =
      (s.proc rpp).pCallerQ := by
    simp only [callerLinks, Links.get_head, hchild]
    rfl
  constructor
  · intro hp
    refine ⟨?_, hsending ▸ hp.message.2, hdelivery ▸ hp.message.1, hexp ▸ hp.timer.2,
      hvm ▸ hp.vm.2, fun d hd hv => hp.queued d hd ((hcaller d hd _ (.inl rfl)).mpr hv),
      fun hv => hp.timer.1 ((htimer _ (.inl rfl)).mpr hv), fun hv => hp.vm.1.1 ((hrequest _ (.inl rfl)).mpr hv),
      fun hv => hp.vm.1.2.1 ((hrestart _ (.inl rfl)).mpr hv), fun hv => hp.vm.1.2.2 ((hfault _ (.inl rfl)).mpr hv)⟩
    cases hq : (s.proc rpp).pCallerQ with
    | none => rfl
    | some x => exact absurd (.here (hhead.trans hq)) (hp.callers x)
  · intro hsafe
    refine ⟨Links.not_visits_of_get (hhead.trans hsafe.callers),
      fun d hd hv => hsafe.queued d hd ((hcaller d hd _ (.inl rfl)).mp hv),
      fun q hv => absurd ((hreadies q _ (.inl rfl)).mp hv) (hready q), fork_signals env h,
      ⟨fun hv => hsafe.timer ((htimer _ (.inl rfl)).mp hv), hexp ▸ hsafe.deadline⟩,
      ⟨⟨fun hv => hsafe.vm.1 ((hrequest _ (.inl rfl)).mp hv), fun hv => hsafe.vm.2.1 ((hrestart _ (.inl rfl)).mp hv),
        fun hv => hsafe.vm.2.2 ((hfault _ (.inl rfl)).mp hv)⟩, hvm ▸ hsafe.request⟩,
      ⟨hdelivery ▸ hsafe.delivery, hsending ▸ hsafe.sending⟩, ?_⟩
    exact ⟨fun d hd x => hcaller d hd x (.inr (hsafe.queued d hd)), fun q x => hreadies q x (.inr (hready q)),
      fun x => htimer x (.inr hsafe.timer), fun x => hrequest x (.inr hsafe.vm.1),
      fun x => hrestart x (.inr hsafe.vm.2.1), fun x => hfault x (.inr hsafe.vm.2.2)⟩

/-- RS gives PM and VFS the privileges of system processes, and asks PM to fork it; PM has
taken the request, so RS waits for the answer. -/
def askForkOps : List Op :=
  [.request rsSlot (.privctl 0 (.setSys none)), .request rsSlot (.privctl 0 .allow),
    .request rsSlot (.privctl 1 (.setSys none)), .request rsSlot (.privctl 1 .allow),
    .dispatch rsSlot, .trap (sendrecTo 0), .dispatch pmSlot, .trap (receiveFrom endptAny)]

/-- A request of PM to fork RS into slot 20. -/
def forkEnv : ForkEnv := ⟨ok, 0x1000, false⟩

/-- The slot of process number 20. -/
def childSlot : Slot := ⟨24, by decide⟩

theorem forks_askFork :
    (runOps (bootWith 0) askForkOps).Forks 2 20 rsSlot childSlot := by
  constructor <;> decide +kernel

/-- RS has no senders waiting when PM forks it. -/
theorem forkPreserves_askFork :
    (runOps (bootWith 0) askForkOps).ForkPreserves
      ((runOps (bootWith 0) askForkOps).doFork 2 20 forkEnv).2 childSlot := by
  refine (forkPreserves_iff_forkSafe ⟨0, reaches_runOps (by decide +kernel)⟩ forks_askFork
    forkEnv).mpr ?_
  have hcallers : ∀ d, (runOps (bootWith 0) askForkOps).callerLinks.get (.head d) = none := by
    decide +kernel
  refine ⟨by decide +kernel, by decide +kernel, by decide +kernel, by decide +kernel, by decide +kernel,
    fun d _ => Links.not_visits_of_get (hcallers d) _, ?_, ?_, ?_, ?_⟩
  all_goals exact Links.not_visits_of_get (by decide +kernel) _

/-- Meanwhile VFS sends to RS, which waits for PM only. -/
def queuedForkOps : List Op :=
  askForkOps ++ [.dispatch vfsSlot, .trap { sendrecTo 2 with callNr := callSend }]

/-- The state after the fork of RS with VFS on its queue. -/
def queuedForkState : State := ((runOps (bootWith 0) queuedForkOps).doFork 2 20 forkEnv).2

/-- VFS is on the queue of RS when PM forks RS; it is then on the queue of the child, too,
to which it does not send. -/
theorem fork_copies_callers :
    Reachable KernelRun (runOps (bootWith 0) queuedForkOps) ∧
      (runOps (bootWith 0) queuedForkOps).Forks 2 20 rsSlot childSlot ∧
      queuedForkState.callerLinks.Visits (.head childSlot) vfsSlot ∧
      queuedForkState.rtsIsset vfsSlot rtsSending = true ∧
      (queuedForkState.proc vfsSlot).pSendtoE ≠ (queuedForkState.proc childSlot).pEndpoint := by
  refine ⟨⟨0, reaches_runOps (by decide +kernel)⟩, ?_, .here ?_, ?_, ?_⟩
  · constructor <;> decide +kernel
  all_goals decide +kernel

end Minix.Kernel
