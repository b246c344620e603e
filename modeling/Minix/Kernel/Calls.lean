/-
  Kernel/Calls.lean --- the kernel functions as sequences of steps.

  Each function is taken apart along its definition: a branch of the function is a
  sequence of steps, and what a step requires is what the function tested on the way
  there.  A caller of `mini_receive` goes through several loops before it blocks;
  `CanTake` says that nothing has happened to it so far, and every function on that
  path hands the property on unless it has put a message into the caller's slot.
-/
import Minix.Kernel.SchedStep

set_option autoImplicit false

namespace Minix.Kernel

open Minix.Foundation Relation

variable {rp caller dst owner rc : Slot} {α : Type} {dstE srcE : Int} {env : TableEnv} {t : Trap}

namespace State

variable (s : State) {μ : Mode}

/-! ## Notifications and signals -/

theorem erase_buildNotifyMessage (src dst : Slot) :
    (s.buildNotifyMessage src dst).2.erase = s.erase := by
  unfold buildNotifyMessage
  split
  · dsimp only
    exact erase_modPriv fun _ => rfl
  · split
    · dsimp only
      exact erase_modPriv fun _ => rfl
    · rfl

theorem lights_miniNotify_along {mask : BitVec 16} (hmask : isSet mask rtsReceiving = true) (caller : Slot) (dstE : Int) :
    ReflTransGen (Along (Light μ) (Tame mask)) s (s.miniNotify caller dstE).2 := by
  unfold miniNotify
  split
  · exact .refl
  rename_i dst _
  split_ifs with hwill
  · have hbuild := s.erase_buildNotifyMessage caller dst
    have hep := frame_proc Proc.pEndpoint hbuild caller rfl
    have hrecv : (s.buildNotifyMessage caller dst).2.willReceive dst
        ((s.buildNotifyMessage caller dst).2.proc caller).pEndpoint = true := by
      rw [hep, frame_congr (fun t => t.willReceive dst (s.proc caller).pEndpoint) hbuild rfl]
      simp only [Bool.and_eq_true] at hwill
      exact hwill.1
    have hstep := Along.deliver (μ := μ) _ caller dst (s.buildNotifyMessage caller dst).1 hrecv hmask
    rw [hep] at hstep
    exact (ReflTransGen.single (.quiet hbuild)).tail hstep
  · refine .single (.quiet ?_)
    dsimp only [setNotifyPending]
    exact erase_modPriv fun _ => rfl

theorem lights_miniNotify (caller : Slot) (dstE : Int) : CallLights μ s (s.miniNotify caller dstE).2 :=
  s.lights_miniNotify_along (by decide) caller dstE

theorem lights_sendSig (rp : Slot) (sig : Nat) : CallLights μ s (s.sendSig rp sig) := by
  unfold sendSig
  split
  · exact callLights_stop
  · refine (callLights_of_erase ?_).trans (lights_miniNotify _ _ _)
    exact erase_modPriv fun _ => rfl

theorem lights_causeSig (hlive : μ.zombie ∨ s.Alive rp) (sig : Nat) :
    CallLights μ s (s.causeSig rp sig) := by
  unfold causeSig
  split
  · exact callLights_stop
  split_ifs with hnew
  · exact .refl
  have hsig : sigbit sig ≠ 0#32 := by
    intro hzero
    rw [hzero] at hnew
    exact hnew (by simp [isSet])
  dsimp only
  split_ifs with hsignaled
  · refine .single ⟨.pend s rp (sigbit sig) ?_, .single (.same (.modPending s rp _))⟩
    simpa [rtsIsset] using hsignaled
  · refine (ReflTransGen.single ⟨.signal s rp hsig hlive, ?_⟩).trans (lights_sendSig _ _ _)
    exact (ReflTransGen.single (.same (.modPending s rp _))).tail (.set _ rp (by decide) (by decide))

theorem lights_sigDelayDone (hlive : μ.zombie ∨ s.Alive rp) : CallLights μ s (s.sigDelayDone rp) := by
  have hclear : (s.modProc rp fun p => p.setMisc (clearBits p.pMiscFlags mfSigDelay)).erase =
      s.erase := erase_modProc _ _ _ fun p => p.erase_setMisc_clear (by decide)
  refine (callLights_of_erase hclear).trans (lights_causeSig _ ?_ _)
  exact hlive.imp_right ((Calm.quiet (μ := μ) hclear).alive rp).mpr

/-! ## Sending -/

section

variable (k : Proc → α)
    (hk : ∀ (p : Proc) (q l : Option Slot), k { p with pCallerQ := q, pQLink := l } = k p)
include hk

theorem setCallerLink_congr (r : Ref Slot Slot) (v : Option Slot) (i : Slot) :
    k ((s.setCallerLink r v).proc i) = k (s.proc i) := by
  cases r with
  | head rp =>
    unfold setCallerLink
    refine modProc_congr s rp k ?_ i
    exact hk (s.proc rp) v (s.proc rp).pQLink
  | next rp =>
    unfold setCallerLink
    refine modProc_congr s rp k ?_ i
    exact hk (s.proc rp) (s.proc rp).pCallerQ v

/-- Joining a queue writes links only. -/
theorem blockSender_congr (caller dst : Slot) (dstE : Int) (msg : Message) (i : Slot) :
    k ((s.blockSender caller dst dstE msg).proc i) =
      k ((s.markSending caller dstE msg).proc i) := by
  unfold blockSender
  dsimp only
  split
  · rfl
  · rw [record_proc, setCallerLink_congr _ k hk, setCallerLink_congr _ k hk]

end

section

variable (caller : Slot) (dstE : Int) (msg : Message)

theorem flags_markSending (i : Slot) : ((s.markSending caller dstE msg).proc i).pRtsFlags =
      if i = caller then (s.proc caller).pRtsFlags ||| rtsSending else (s.proc i).pRtsFlags := by
  unfold markSending
  rw [modProc_congr _ caller Proc.pRtsFlags rfl, flags_rtsSet,
    modProc_congr s caller Proc.pRtsFlags rfl, modProc_congr s caller Proc.pRtsFlags rfl]

theorem sendto_markSending (i : Slot) : ((s.markSending caller dstE msg).proc i).pSendtoE =
      if i = caller then dstE else (s.proc i).pSendtoE := by
  unfold markSending
  by_cases hi : i = caller
  · simp [hi]
  · rw [if_neg hi, modProc_proc_of_ne _ caller _ hi, frame_proc Proc.pSendtoE (unsched_rtsSet _ _ _) i rfl,
      modProc_proc_of_ne s caller _ hi]

/-- Marking a sender changes its message, its destination and what the scheduler
writes. -/
theorem markSending_congr (k : Proc → α)
    (hk : ∀ (p : Proc) (m : Message) (e : Int), k { p with pSendmsg := m, pSendtoE := e } = k p)
    (hun : ∀ p : Proc, k p.unsched = k p) (i : Slot) : k ((s.markSending caller dstE msg).proc i) = k (s.proc i) := by
  unfold markSending
  refine (modProc_congr _ caller k (hk _ _ dstE) i).trans ?_
  refine (frame_congr (fun u => k (u.proc i)) (unsched_rtsSet _ caller _) (funext fun u => hun (u.proc i))).trans ?_
  exact modProc_congr s caller k (hk _ msg _) i

end

/-- A caller that has blocked in a send is ready for the receive of a SENDREC. -/
theorem inCall_blockSender (hcan : CanTake μ s caller) {dst : Slot}
    (hany : dstE ≠ endptAny) {msg : Message} :
    InCall μ (s.blockSender caller dst dstE msg) caller dstE ∧
      (s.blockSender caller dst dstE msg).rtsIsset caller rtsSending = true := by
  have hset : ((s.blockSender caller dst dstE msg).proc caller).pRtsFlags = (s.proc caller).pRtsFlags ||| rtsSending := by
    rw [s.blockSender_congr Proc.pRtsFlags (fun _ _ _ => rfl), flags_markSending, if_pos rfl]
  have hflag : ∀ f, f &&& rtsSending = 0#16 →
      (s.blockSender caller dst dstE msg).rtsIsset caller f = s.rtsIsset caller f := by
    intro f hf
    rw [rtsIsset, hset, isSet_or_of_disjoint hf]
    rfl
  refine ⟨⟨(hflag _ (by decide)).trans hcan.receiving, (hflag _ (by decide)).trans hcan.noEndpoint,
    (hflag _ (by decide)).trans hcan.alive, hcan.slot.imp_right ?_, fun _ => ⟨?_, hany⟩⟩, ?_⟩
  · intro hslot
    unfold mfIsset at hslot ⊢
    rwa [s.blockSender_congr Proc.pMiscFlags (fun _ _ _ => rfl),
      s.markSending_congr _ _ _ Proc.pMiscFlags (fun _ _ _ => rfl) fun _ => rfl]
  · rw [s.blockSender_congr Proc.pSendtoE (fun _ _ _ => rfl), sendto_markSending, if_pos rfl]
  · rw [rtsIsset, hset]
    exact isSet_or_self _ _

section

variable (m : Buffer) (nonBlocking : Bool) (hgood : Good μ s) (hcan : CanTake μ s caller)
    (hdst : s.isokendpt dstE = some dst)
include hgood hcan hdst

/-- A send goes ahead or is refused, or it blocks its caller. -/
theorem miniSend_cases (hself : nonBlocking = true ∨ μ.selfWait ∨ dst ≠ caller) :
    CallLights μ s (s.miniSend caller dstE m nonBlocking).2 ∨
      ∃ msg, (s.miniSend caller dstE m nonBlocking).2 = s.blockSender caller dst dstE msg ∧
        MayBlockSend μ s caller dst dstE := by
  have hnames := hgood.names hdst
  have haddr : procAddr (endpointP dstE) = some dst := by
    rw [← hnames.nr, procAddr_procNr]
  unfold miniSend
  simp only [haddr]
  split
  · exact .inl .refl
  split
  · exact .inl .refl
  rename_i hend
  split
  · rename_i hwill
    left
    cases hm : m.contents with
    | none => exact .refl
    | some msg => exact .single (.deliver s caller dst msg hwill (by decide))
  · rename_i hwill
    split_ifs with hnb
    · exact .inl .refl
    split
    · exact .inl callLights_stop
    rename_i hdead
    split_ifs with hzero
    · exact .inl .refl
    split
    · exact .inl .refl
    refine .inr ⟨_, rfl, hcan, hnames, by simpa using hend, by simpa using hwill, ?_, ?_⟩
    · rw [hdead]
      simpa using hzero
    · exact hself.resolve_left (by simpa using hnb)

theorem run_miniSend (hself : nonBlocking = true ∨ μ.selfWait ∨ dst ≠ caller) : CallRun μ s (s.miniSend caller dstE m nonBlocking).2 := by
  rcases s.miniSend_cases m nonBlocking hgood hcan hdst hself with hlights | ⟨msg, heq, hmay⟩
  · exact hlights.calls.run
  · rw [heq]
    exact Blocks.run (.single (.blockSend msg hmay))

end

/-! ## Taking a message that is there -/

theorem steps_takeNotify (hcan : CanTake μ s caller) {id : Fin nrSysProcs} :
    CallSteps μ s (s.takeNotify caller id) := by
  set s1 := s.modPriv (s.proc caller).pPriv fun sp =>
    { sp with sNotifyPending := sp.sNotifyPending &&& ~~~(1#32 <<< id.val) }
  have herase : s1.erase = s.erase := erase_modPriv fun _ => rfl
  unfold takeNotify
  split
  · exact CallLights.calls ((callLights_of_erase herase).trans callLights_stop)
  · rename_i src _
    have hbuilt := (s1.erase_buildNotifyMessage src caller).trans herase
    exact (callLights_of_erase hbuilt).calls.tail
      (.fill _ (hcan.calm (Calm.quiet hbuilt)))

theorem steps_takeSender {src : Slot} {wanted : Option Slot} {xpp : Ref Slot Slot}
    (hgood : Good μ s) (hcan : CanTake μ s caller)
    (hseek : s.callerLinks.seek (fun xp => wanted.all (· == xp)) (nrSlots + 1) (.head caller) =
      some xpp) (hget : s.callerLinks.get xpp = some src) :
    CallSteps μ s (s.takeSender caller wanted src xpp) := by
  set s1 := (s.queueMess (s.proc src).pEndpoint (some (s.proc src).pSendmsg) caller).2
  set s2 := if s1.mfIsset src mfSigDelay then s1.sigDelayDone src else s1 with hs2
  have hfill : CallSteps μ s s1 := .single (.fill s hcan)
  have hflags : ∀ i f, s1.rtsIsset i f = s.rtsIsset i f := fun i f =>
    s.rtsIsset_queueMess _ _
  have hlive : μ.zombie ∨ s1.Alive src := by
    rcases hgood.sound with hmode | hsound
    · exact .inl hmode.1
    · exact .inr ((hflags src _).trans (hsound.queue hcan.noEndpoint hcan.alive hseek hget))
  have hdelay : CallLights μ s1 s2 := by
    rw [hs2]
    split
    · exact lights_sigDelayDone _ hlive
    · exact .refl
  have hlinks : s2.callerLinks = s.callerLinks :=
    hdelay.calm.links.trans (s.callerLinks_queueMess _ _ _)
  refine (hfill.trans hdelay.calls).tail ⟨.take s2 ?_ ?_ ?_ (by rwa [hlinks]) (by rwa [hlinks]),
    (ReflTransGen.single (.unset s2 src (by decide))).tail (.same ((sameSched_setCallerLink _).trans .record))⟩
  · exact (hdelay.calm.sending caller).trans ((hflags caller _).trans hcan.sending)
  · exact (hdelay.calm.noEndpoint caller).trans ((hflags caller _).trans hcan.noEndpoint)
  · exact (hdelay.calm.alive caller).mpr ((hflags caller _).trans hcan.alive)

/-! ## Tables of asynchronous messages -/

theorem lights_dataCopy (env : TableEnv) (owner : Slot) (addr : Nat) (field : TableField) :
    CallLights μ s (s.dataCopy env owner addr field).2 := by
  unfold dataCopy
  split
  · exact .refl
  split
  · exact .refl
  · split
    · exact .refl
    · split
      · exact .single (.unset s (by decide) (by decide))
      · exact .refl

theorem erase_modEntry (owner : Slot) (addr : Nat) (f : AsynMsg → AsynMsg) :
    (s.modEntry owner addr f).erase = s.erase := rfl

theorem lights_finishEntry (env : TableEnv) (owner : Slot) (addr : Nat) (flags : BitVec 32)
    (result : Int) : CallLights μ s (s.finishEntry env owner addr flags result).2 := by
  unfold finishEntry
  dsimp only
  have hfirst := s.lights_dataCopy (μ := μ) env owner addr .putResult
  split
  · exact hfirst
  have hresult := hfirst.tail (.quiet (erase_modEntry _ owner addr fun e =>
    { e with result := result }))
  have hsecond := hresult.trans (lights_dataCopy _ env owner addr .putFlags)
  split
  · exact hsecond
  · exact hsecond.tail (.quiet (erase_modEntry _ _ _ _))

/-- The table of `owner` can be reached, and no memory request is in the way. -/
def Accessible (owner : Slot) : Prop :=
  (s.isokendpt (s.proc owner).pEndpoint).isSome = true ∧
    (s.vmRunning = true → s.rtsIsset s.whoP rtsVmrequest = false)

theorem dataCopy_of_accessible {addr : Nat} {field : TableField}
    (h : s.Accessible owner) (henv : env owner addr field = .done) :
    s.dataCopy env owner addr field = (true, s) := by
  obtain ⟨i, hi⟩ := Option.isSome_iff_exists.mp h.1
  unfold dataCopy
  simp only [hi, henv]
  cases hvm : s.vmRunning with
  | false => simp
  | true => simp [h.2 hvm]

theorem isokendpt_of_alive {e : Int} {i : Slot} (hnr : procNr i = endpointP e)
    (hep : (s.proc i).pEndpoint = e) (halive : s.Alive i) : s.isokendpt e = some i := by
  refine (isokendpt_eq_some_iff s i).mpr ⟨hnr, ?_, hep⟩
  by_contra hempty
  have hflags : (s.proc i).pRtsFlags = rtsSlotFree := by simpa [isemptyp] using hempty
  have hset : s.rtsIsset i rtsSlotFree = true := by
    rw [rtsIsset, hflags]
    decide
  rw [Alive, hset] at halive
  simp at halive

/-- An access that succeeds leaves the table accessible. -/
theorem accessible_dataCopy (hsound : s.Sound) {env : TableEnv} {owner : Slot} {addr : Nat}
    {field : TableField} (h : (s.dataCopy env owner addr field).1 = true) :
    (s.dataCopy env owner addr field).2.Accessible owner := by
  revert h
  unfold dataCopy
  split
  · exact fun h => nomatch h
  rename_i i hok
  have hsome : (s.isokendpt (s.proc owner).pEndpoint).isSome = true := by rw [hok]; rfl
  split
  · exact fun h => nomatch h
  split
  · rename_i hvm
    exact fun _ => ⟨hsome, fun hvm' => absurd hvm' (by simpa using hvm)⟩
  split_ifs with hreq
  · -- The request is over, and the endpoint is still that of the owner.
    intro _
    have hcalm : Calm .any s (s.rtsUnset s.whoP rtsVmrequest) :=
      CallLights.calm (.single (.unset s (by decide) (by decide)))
    obtain ⟨hnr, hempty, hep⟩ := (isokendpt_eq_some_iff s i).mp hok
    refine ⟨?_, fun _ => ?_⟩
    · rw [hcalm.endpoint owner, isokendpt_of_alive _ hnr ((hcalm.endpoint i).trans hep)
        ((hcalm.alive i).mpr (hsound.alive hempty))]
      rfl
    · rw [frame_congr whoP (unsched_rtsUnset _ _ _) rfl]
      exact rtsIsset_rtsUnset_self s s.whoP (by decide)
  · exact fun _ => ⟨hsome, fun _ => by simpa using hreq⟩

/-- A write to the caller's slot does not touch the tables. -/
theorem accessible_queueMess (h : s.Accessible owner) {ep : Int}
    {m : Option Message} {dst : Slot} : (s.queueMess ep m dst).2.Accessible owner := by
  have hflags := s.queueMess_congr Proc.pRtsFlags (fun _ _ _ => rfl) ep m dst
  have hep := s.queueMess_congr Proc.pEndpoint (fun _ _ _ => rfl) ep m dst
  have hok : ∀ e, (s.queueMess ep m dst).2.isokendpt e = s.isokendpt e := by
    intro e
    unfold isokendpt
    cases procAddr (endpointP e) <;> simp [isemptyp, hflags, hep]
  have hvm : (s.queueMess ep m dst).2.vmRunning = s.vmRunning := by cases m <;> rfl
  have hwho : (s.queueMess ep m dst).2.whoP = s.whoP := by cases m <;> rfl
  rw [Accessible, hok, hep, hvm, hwho]
  exact ⟨h.1, fun hr => (s.rtsIsset_queueMess _ _).trans (h.2 hr)⟩

/-- Results can always be written back to tables. -/
def NoTear (env : TableEnv) : Prop :=
  ∀ owner addr, env owner addr .putResult = .done ∧ env owner addr .putFlags = .done

theorem finishEntry_of_accessible (henv : NoTear env)
    (h : s.Accessible owner) (addr : Nat) (flags : BitVec 32) (result : Int) :
    (s.finishEntry env owner addr flags result).1 = true := by
  unfold finishEntry
  rw [s.dataCopy_of_accessible h (henv owner addr).1]
  have hentry : (s.modEntry owner addr fun e => { e with result := result }).Accessible owner := h
  simp only [Bool.not_true, Bool.false_eq_true, if_false]
  rw [dataCopy_of_accessible _ hentry (henv owner addr).2]
  rfl

/-- If writes to tables may fail, nothing is assumed about delivery slots. -/
theorem calm_queueMess (htorn : μ.tornTable) {ep : Int} {m : Option Message} {dst : Slot} :
    Calm μ s (s.queueMess ep m dst).2 where
  links := s.callerLinks_queueMess ep m dst
  endpoint := s.queueMess_congr Proc.pEndpoint (fun _ _ _ => rfl) ep m dst
  sendto := s.queueMess_congr Proc.pSendtoE (fun _ _ _ => rfl) ep m dst
  sending i := s.rtsIsset_queueMess ep m
  noEndpoint i := s.rtsIsset_queueMess ep m
  alive i := by rw [Alive, Alive, s.rtsIsset_queueMess]
  receiving i hi := (s.rtsIsset_queueMess ep m).trans hi
  slot := .inl htorn

/-- A search for a message has put one into the caller's slot, or leaves the caller as it was. -/
def Searched (μ : Mode) (s : State) (found : Prop) (s' : State) : Prop := CallSteps μ s s' ∧ (found ∨ Calm μ s s')

section

variable {s s1 s2 : State} {found found' : Prop}

theorem Searched.of_lights (h : CallLights μ s s1) : Searched μ s found s1 := ⟨h.calls, .inr h.calm⟩

theorem Searched.imp (h : Searched μ s found s1) (hf : found → found') : Searched μ s found' s1 :=
  ⟨h.1, h.2.imp_left hf⟩

theorem Searched.after (h : CallLights μ s s1) (h1 : Searched μ s1 found s2) : Searched μ s found s2 :=
  ⟨h.calls.trans h1.1, h1.2.imp_right h.calm.trans⟩

/-- The search goes on where nothing has been found. -/
theorem Searched.next (h : Searched μ s found s1) (hnot : ¬ found) (hgood : Good μ s) (hcan : CanTake μ s dst)
    (h1 : Good μ s1 → CanTake μ s1 dst → Searched μ s1 found' s2) : Searched μ s found' s2 := by
  have hcalm := h.2.resolve_left hnot
  obtain ⟨hsteps, hrest⟩ := h1 (hgood.mono h.1.steps) (hcan.calm hcalm)
  exact ⟨h.1.trans hsteps, hrest.imp_right hcalm.trans⟩

end

section

variable (henv : μ.tornTable ∨ NoTear env)
include henv

section

variable (src : Slot) (hgood : Good μ s) (hcan : CanTake μ s dst)
include hgood hcan

theorem steps_tryDeliver (addr : Nat) (flags : BitVec 32) : Searched μ s
    ((s.tryDeliver env src dst addr flags).1 = .finish ok) (s.tryDeliver env src dst addr flags).2 := by
  have hcopy := s.lights_dataCopy (μ := μ) env src addr .getMsg
  set t := (s.dataCopy env src addr .getMsg).2
  have hcan1 : CanTake μ t dst := hcan.calm hcopy.calm
  set msg := (t.amem src addr).msg
  set u := (t.queueMess (t.proc src).pEndpoint (some msg) dst).2 with hu
  have hfill : CallSteps μ s u := hcopy.calls.tail (.fill t hcan1)
  have hfin := u.lights_finishEntry (μ := μ) env src addr flags ok
  unfold tryDeliver
  dsimp only
  split
  · exact .of_lights hcopy
  rename_i hcopied
  have hok : (t.queueMess (t.proc src).pEndpoint (some msg) dst).1 = ok := rfl
  rw [← hu, hok]
  split_ifs with hfinished
  · refine ⟨hfill.trans hfin.calls, .inr ?_⟩
    have htorn : μ.tornTable := by
      rcases henv with htorn | henv
      · exact htorn
      rcases hgood.sound with hmode | hsound
      · exact hmode.2
      · have hacc := s.accessible_dataCopy hsound
          (by simpa using hcopied)
        have hdone := u.finishEntry_of_accessible henv
          (t.accessible_queueMess hacc) addr flags ok
        simp [hdone] at hfinished
    exact (hcopy.calm.trans (calm_queueMess t htorn)).trans hfin.calm
  · exact ⟨hfill.trans hfin.calls, .inl rfl⟩

theorem steps_tryEntry (addr : Nat) :
    Searched μ s ((s.tryEntry env src dst addr).1 = .finish ok) (s.tryEntry env src dst addr).2 := by
  set t := (s.dataCopy env src addr .getFlags).2
  set u := (t.dataCopy env src addr .getDst).2
  have hflags : CallLights μ s t := s.lights_dataCopy env src addr .getFlags
  have hdst : CallLights μ s u := hflags.trans (t.lights_dataCopy env src addr .getDst)
  have hbad : CallLights μ s (t.modPriv (t.proc src).pPriv fun sp => { sp with sAsynsize := 0 }) :=
    hflags.tail (.quiet (erase_modPriv fun _ => rfl))
  have hrest := u.steps_tryDeliver henv src (hgood.mono hdst.lights.steps) (hcan.calm hdst.calm) addr
    (t.amem src addr).flags
  unfold tryEntry
  dsimp only
  repeat' split
  all_goals first
    | exact .of_lights hflags
    | exact .of_lights hdst
    | exact .of_lights hbad
    | exact .after hdst hrest

theorem steps_tryTable (size addr : Nat) (done postponed : Bool) : Searched μ s
    ((s.tryTable env src dst size addr done postponed).1.1 = some ok) (s.tryTable env src dst size addr done postponed).2 := by
  induction size generalizing s addr done postponed with
  | zero => exact .of_lights .refl
  | succ size ih =>
    have hentry := s.steps_tryEntry henv src hgood hcan addr
    rw [tryTable]
    split
    all_goals
      rename_i heq
      rw [heq] at hentry
    case h_4 =>
      -- the scan returns the result of the entry
      exact hentry.imp (by simp)
    all_goals exact hentry.next (by simp) hgood hcan fun hgood1 hcan1 => ih _ hgood1 hcan1 _ _ _

theorem steps_tryOne : Searched μ s ((s.tryOne env src dst).1.1 = ok) (s.tryOne env src dst).2 := by
  have htable := s.steps_tryTable henv src hgood hcan (s.privOf src).sAsynsize
    (s.privOf src).sAsyntab true false
  unfold tryOne
  dsimp only
  split
  · exact .of_lights .refl
  split
  · exact .of_lights .refl
  split
  · exact .of_lights .refl
  split
  all_goals
    rename_i heq
    rw [heq] at htable
  case h_2 =>
    refine htable.next (by simp) hgood hcan fun _ _ => .of_lights (callLights_of_erase ?_)
    dsimp only
    exact erase_modPriv fun _ => rfl
  all_goals exact htable.imp (by simp)

end

theorem steps_tryAll (hgood : Good μ s) (hcan : CanTake μ s caller) (ids : List (Fin nrSysProcs)) (postponed : Bool) :
    Searched μ s ((s.tryAll env caller ids postponed).1.1 = ok) (s.tryAll env caller ids postponed).2 := by
  induction ids generalizing s postponed with
  | nil => exact .of_lights .refl
  | cons id ids ih =>
    rw [tryAll]
    split
    · exact ih s hgood hcan _
    split
    · exact .of_lights callLights_stop
    rename_i src _
    have hone := s.steps_tryOne henv src hgood hcan
    dsimp only
    split_ifs with hres
    · exact hone.imp fun _ => rfl
    · exact hone.next hres hgood hcan fun hgood1 hcan1 => ih _ hgood1 hcan1 _

theorem steps_tryAsync (hgood : Good μ s) (hcan : CanTake μ s caller) :
    Searched μ s ((s.tryAsync env caller).1 = ok) (s.tryAsync env caller).2 := by
  have hall := s.steps_tryAll henv hgood hcan (List.finRange nrSysProcs) false
  unfold tryAsync
  dsimp only
  split
  · exact hall.imp fun _ => rfl
  rename_i hres
  refine hall.next hres hgood hcan fun _ _ => .of_lights ?_
  split
  · exact .refl
  · exact callLights_of_erase (erase_modProc _ _ _ fun p => p.erase_setMisc_clear (by decide))

end

/-! ## Receiving -/

theorem blocks_blockReceiver {src : Option Slot}
    (h : s.deadlock .receive caller ((src.map procNr).getD endptAny) = .ok 0 →
      MayBlockReceive μ s caller srcE src) :
    Blocks μ s (s.blockReceiver caller srcE ((src.map procNr).getD endptAny)).2 := by
  unfold blockReceiver
  split
  · exact .single (.rest rfl)
  rename_i hdead
  split_ifs with hzero
  · exact .refl
  · refine .single ⟨.blockRecv s (h ?_), (ReflTransGen.single (.same (.modProc ?_))).tail
      (.set _ caller (by decide) (by decide))⟩
    · rw [hdead]
      simpa using hzero
    · exact ⟨rfl, rfl, rfl, rfl, rfl, rfl⟩

/-- The search for a message that is there either finds one or leaves the caller as
it was, with no sender blocked that it asks for. -/
theorem steps_receiveNow (henv : μ.tornTable ∨ NoTear env)
    {src : Option Slot} (hgood : Good μ s) (hcan : CanTake μ s caller) :
    CallSteps μ s (s.receiveNow env caller src).2 ∧
      ((s.receiveNow env caller src).1 = true ∨
        Calm μ s (s.receiveNow env caller src).2 ∧ s.NoSender caller src) := by
  unfold receiveNow
  split
  · exact ⟨s.steps_takeNotify hcan, .inl rfl⟩
  split
  · exact ⟨callLights_stop.calls, .inl rfl⟩
  rename_i xpp hseek
  split
  · rename_i hget
    exact ⟨s.steps_takeSender hgood hcan hseek hget, .inl rfl⟩
  rename_i hget
  have hnone : s.NoSender caller src := ⟨xpp, hseek, hget⟩
  split
  · split
    · rename_i x _
      have hone := s.steps_tryOne henv x hgood hcan
      exact ⟨hone.1, hone.2.imp (by simp) fun hcalm => ⟨hcalm, hnone⟩⟩
    · have hall := s.steps_tryAsync henv hgood hcan
      exact ⟨hall.1, hall.2.imp (by simp) fun hcalm => ⟨hcalm, hnone⟩⟩
  · exact ⟨.refl, .inr ⟨Calm.refl, hnone⟩⟩

/-- A receive; after the send of a SENDREC it only blocks its caller. -/
theorem run_miniReceive (henv : μ.tornTable ∨ NoTear env)
    (m : Buffer) (hgood : Good μ s) (hin : InCall μ s caller srcE)
    (hself : μ.selfWait ∨ srcE = endptAny ∨ s.isokendpt srcE ≠ some caller) :
    (s.rtsIsset caller rtsSending = true → Blocks μ s (s.miniReceive env caller srcE m).2) ∧
      (s.rtsIsset caller rtsSending = false → CallRun μ s (s.miniReceive env caller srcE m).2) := by
  set s1 := s.modProc caller fun p =>
    { p with pDelivermsgLin := m.lin, pDelivermsgVir := m.vir }
  have herase : s1.erase = s.erase := erase_modProc _ _ _ fun _ => rfl
  have hcalm : Calm μ s s1 := Calm.quiet herase
  have hblocks : Blocks μ s s1 := .single (.rest herase)
  have hcalls : CallSteps μ s s1 := (callLights_of_erase herase).calls
  have hgood1 := hgood.mono hcalls.steps
  have hin1 := hin.calm hcalm
  have hsend : s1.rtsIsset caller rtsSending = s.rtsIsset caller rtsSending := hcalm.sending caller
  have hok : s1.isokendpt srcE = s.isokendpt srcE :=
    frame_congr (fun t => t.isokendpt srcE) herase rfl
  unfold miniReceive
  dsimp only
  generalize hsrc : (if srcE = endptAny then none else s1.isokendpt srcE) = src
  split
  · exact ⟨fun _ => .refl, fun _ => CallSteps.run .refl⟩
  split
  · exact ⟨fun _ => hblocks.tail (.rest rfl), fun _ => hcalls.run.quiet rfl⟩
  rename_i hvalid
  split
  · exact ⟨fun _ => hblocks, fun _ => hcalls.run⟩
  have hany : src = none → srcE = endptAny := by
    intro hnone
    by_contra hne
    exact hvalid ⟨hne, hnone⟩
  have hnames : ∀ x, src = some x → Names μ s1 srcE x := by
    intro x hx
    rw [← hsrc] at hx
    split at hx
    · simp at hx
    · exact hgood1.names hx
  have hself' : μ.selfWait ∨ src ≠ some caller := by
    rcases hself with h | h | h
    · exact .inl h
    · exact .inr (by simp [← hsrc, h])
    · right
      rw [← hsrc, hok]
      split
      · simp
      · exact h
  split
  · rename_i hsending
    refine ⟨fun _ => hblocks.trans (s1.blocks_blockReceiver fun hdead => ?_),
      fun hnot => nomatch hsending.symm.trans (hsend.trans hnot)⟩
    obtain ⟨hto, hne⟩ := hin1.sendto hsending
    exact ⟨hin1.receiving, hin1.noEndpoint, hin1.alive, hin1.slot, hany, hnames, hdead,
      hself', .inl ⟨hsending, hto, fun hnone => hne (hany hnone)⟩⟩
  · rename_i hfree
    refine ⟨fun hsending => absurd (hsend.trans hsending) hfree, fun _ => hcalls.thenRun ?_⟩
    have hcan : CanTake μ s1 caller := ⟨by simpa using hfree, hin1.receiving, hin1.noEndpoint, hin1.alive, hin1.slot⟩
    obtain ⟨hnow, hfound⟩ := s1.steps_receiveNow henv hgood1 hcan
    split_ifs with hnot
    · exact hnow.run
    obtain ⟨hc, hnone⟩ := hfound.resolve_left hnot
    have hcan' := hcan.calm hc
    refine ⟨_, hnow, blocks_blockReceiver _ fun hdead => ?_⟩
    refine ⟨hcan'.receiving, hcan'.noEndpoint, hcan'.alive, hcan'.slot, hany,
      fun x hx => (hnames x hx).calm hc, hdead, hself', .inr ⟨hcan'.sending, ?_⟩⟩
    unfold NoSender at hnone ⊢
    rwa [hc.links]

/-! ## Sending asynchronously -/

section

variable (env : TableEnv)

theorem lights_sendaDeliver (h : s.willReceive dst (s.proc caller).pEndpoint = true) {addr : Nat} :
    CallLights μ s (s.sendaDeliver env caller dst addr).2 := by
  unfold sendaDeliver
  by_cases hget : env caller addr .getMsg = .done
  · simp only [hget, if_true, queueMess_some]
    exact .single (.deliver s caller dst _ h (by decide))
  · simp only [hget, if_false]
    exact .refl

theorem lights_sendaEntry (caller : Slot) (addr : Nat) :
    CallLights μ s (s.sendaEntry env caller addr).2.2 := by
  set t := (s.dataCopy env caller addr .getFlags).2
  set u := (t.dataCopy env caller addr .getDst).2
  have hflags : CallLights μ s t := s.lights_dataCopy env caller addr .getFlags
  have hdst : CallLights μ s u := hflags.trans (t.lights_dataCopy env caller addr .getDst)
  unfold sendaEntry
  dsimp only
  split
  · exact hflags
  split
  · exact hflags
  split
  · exact hflags
  split
  · exact hflags
  split
  · exact hdst
  split
  · exact hdst.trans (lights_finishEntry _ _ _ _ _ _)
  split_ifs with hwill
  · simp only [Bool.and_eq_true] at hwill
    exact (hdst.trans (lights_sendaDeliver _ env hwill.1)).trans
      (lights_finishEntry _ _ _ _ _ _)
  · refine hdst.tail (.quiet ?_)
    exact erase_modProc _ _ _ fun p => p.erase_setMisc_or (by decide)

theorem lights_sendaTable (caller : Slot) (size addr : Nat) (pending : Bool) :
    CallLights μ s (s.sendaTable env caller size addr pending).2.2 := by
  induction size generalizing s addr pending with
  | zero => exact .refl
  | succ size ih =>
    have hentry := s.lights_sendaEntry (μ := μ) env caller addr
    rw [sendaTable]
    split
    · exact hentry
    · exact hentry.trans (ih _ _ _)

theorem lights_miniSenda (caller : Slot) (table : Buffer) (size : Nat) :
    CallLights μ s (s.miniSenda env caller table size).2 := by
  unfold miniSenda
  split
  · exact .refl
  have hclear : CallLights μ s (s.modPriv (s.proc caller).pPriv fun sp =>
      { sp with sAsyntab := 0xffffffff, sAsynsize := 0 }) :=
    callLights_of_erase (erase_modPriv fun _ => rfl)
  dsimp only
  split
  · exact hclear
  split
  · exact hclear
  split
  · exact hclear
  have hscan := hclear.trans (lights_sendaTable _ env caller size table.vir false)
  split
  · exact hscan
  · split
    · refine hscan.tail (.quiet ?_)
      dsimp only
      exact erase_modPriv fun _ => rfl
    · exact hscan

end

/-! ## The system call -/

/-- The call may block its caller on itself. -/
def NamesCaller (caller : Slot) (t : Trap) : Prop :=
  (t.callNr = callSend ∨ t.callNr = callSendrec ∨ t.callNr = callReceive) ∧
    t.srcDstE ≠ endptAny ∧ s.isokendpt t.srcDstE = some caller

/-- A call that passes the checks and needs a destination has a valid one. -/
theorem isokendpt_of_check (h : s.sysCallCheck caller t = ok)
    (hsenda : t.callNr ≠ callSenda) (hrecv : t.callNr ≠ callReceive) :
    t.srcDstE ≠ endptAny ∧ ∃ dst, s.isokendpt t.srcDstE = some dst := by
  unfold sysCallCheck at h
  rw [if_neg hsenda] at h
  by_cases hany : t.srcDstE = endptAny
  · rw [if_pos hany, if_pos hrecv] at h
    exact nomatch h
  rw [if_neg hany] at h
  cases hdst : s.isokendpt t.srcDstE with
  | none =>
    simp only [hdst] at h
    exact nomatch h
  | some dst => exact ⟨hany, dst, rfl⟩

theorem run_sysCallSwitch (hgood : Good μ s)
    (hcan : CanTake μ s caller) (hcheck : s.sysCallCheck caller t = ok)
    (henv : μ.tornTable ∨ NoTear t.env) (hself : μ.selfWait ∨ ¬ s.NamesCaller caller t) :
    CallRun μ s (s.sysCallSwitch caller t).2 := by
  unfold sysCallSwitch
  split
  · -- SENDREC: the receive follows a send that went well, blocked or not
    rename_i hcall
    obtain ⟨hany, dst, hdst⟩ := s.isokendpt_of_check hcheck (by rw [hcall]; decide)
      (by rw [hcall]; decide)
    set s1 := s.modProc caller fun p => p.setMisc (p.pMiscFlags ||| mfReplyPend) with hs1
    have herase : s1.erase = s.erase :=
      erase_modProc _ _ _ fun p => p.erase_setMisc_or (by decide)
    have hok : s1.isokendpt t.srcDstE = s.isokendpt t.srcDstE :=
      frame_congr (fun u => u.isokendpt t.srcDstE) herase rfl
    have hne : μ.selfWait ∨ dst ≠ caller := by
      refine hself.imp_right fun hnot hd => hnot ⟨.inr (.inl hcall), hany, ?_⟩
      rw [hdst, hd]
    refine .after herase hgood hcan fun hgood1 hcan1 => ?_
    have hrun := s1.run_miniSend t.mPtr false hgood1 hcan1 (hok.trans hdst) (.inr hne)
    dsimp only
    split
    · exact hrun
    have hrecv := fun hin => run_miniReceive _ henv t.mPtr (hgood1.mono hrun.steps) hin <| by
      refine hne.imp_right fun hne => .inr fun hx => hne ?_
      -- the endpoint of the destination is not reused while the caller sends
      obtain ⟨hnr, _, _⟩ := (isokendpt_eq_some_iff _ _).mp hx
      obtain ⟨hnr', _, _⟩ := (isokendpt_eq_some_iff _ _).mp hdst
      exact procNr_injective (hnr'.trans hnr.symm)
    rcases s1.miniSend_cases t.mPtr false hgood1 hcan1 (hok.trans hdst) (.inr hne) with hlights | ⟨msg, heq, hmay⟩
    · have hcan2 := hcan1.calm hlights.calm
      exact hlights.calls.thenRun ((hrecv hcan2.inCall).2 hcan2.sending)
    · rw [heq] at hrecv ⊢
      obtain ⟨hin, hsending⟩ := s1.inCall_blockSender hcan1 hany
      have hblocks : Blocks μ s1 _ := .single (.blockSend msg hmay)
      exact Blocks.run (hblocks.trans ((hrecv hin).1 hsending))
  · split
    · rename_i hcall
      obtain ⟨hany, dst, hdst⟩ := s.isokendpt_of_check hcheck (by rw [hcall]; decide)
        (by rw [hcall]; decide)
      refine s.run_miniSend t.mPtr false hgood hcan hdst (.inr ?_)
      refine hself.imp_right fun hnot hd => hnot ⟨.inl hcall, hany, ?_⟩
      rw [hdst, hd]
    · split
      · rename_i hcall
        set s1 := s.modProc caller fun p => p.setMisc (clearBits p.pMiscFlags mfReplyPend)
        have herase : s1.erase = s.erase :=
          erase_modProc _ _ _ fun p => p.erase_setMisc_clear (by decide)
        refine .after herase hgood hcan fun hgood1 hcan1 =>
          (s1.run_miniReceive henv t.mPtr hgood1 hcan1.inCall ?_).2 hcan1.sending
        refine hself.imp_right fun hnot => or_iff_not_imp_left.mpr fun hany => ?_
        rw [frame_congr (fun u => u.isokendpt t.srcDstE) herase rfl]
        exact fun hx => hnot ⟨.inr (.inr hcall), hany, hx⟩
      · split
        · exact (s.lights_miniNotify caller t.srcDstE).calls.run
        split
        · rename_i hcall
          obtain ⟨_, dst, hdst⟩ := s.isokendpt_of_check hcheck (by rw [hcall]; decide)
            (by rw [hcall]; decide)
          exact s.run_miniSend t.mPtr true hgood hcan hdst (.inl rfl)
        · split
          · exact (s.lights_miniSenda t.env caller t.mPtr t.srcDstE.toNat).calls.run
          · exact CallSteps.run .refl

variable {s} in
theorem alive_of_runnable (h : s.procIsRunnable rp = true) : s.Alive rp := by
  have hflags : (s.proc rp).pRtsFlags = 0#16 := by simpa [procIsRunnable] using h
  rw [Alive, rtsIsset, hflags]
  decide

/-- A running process is not blocked. -/
theorem canTake_of_runnable (hrun : s.procIsRunnable caller = true)
    (hslot : μ.tornTable ∨ s.mfIsset caller mfDelivermsg = false) : CanTake μ s caller := by
  have hzero : (s.proc caller).pRtsFlags = 0#16 := by simpa [procIsRunnable] using hrun
  have hclear : ∀ f, f ≠ 0#16 → s.rtsIsset caller f = false := by
    intro f hf
    rw [rtsIsset, hzero, isSet_zero hf]
  exact ⟨hclear _ (by decide), hclear _ (by decide), hclear _ (by decide), hclear _ (by decide),
    hslot⟩

section

variable (hgood : Good μ s) (hcan : CanTake μ s s.procPtr) (henv : μ.tornTable ∨ NoTear t.env)
    (hself : μ.selfWait ∨ ¬ s.NamesCaller s.procPtr t)
include hgood hcan henv hself

theorem run_sysCall : CallRun μ s (s.sysCall t).2 := by
  unfold sysCall
  dsimp only
  split
  · have herase : (s.modProc s.procPtr fun p =>
        p.setMisc (clearBits p.pMiscFlags mfScTrace ||| mfScDefer)).erase = s.erase := by
      refine erase_modProc _ _ _ fun p => ?_
      exact (Proc.erase_setMisc_or (p.setMisc (clearBits p.pMiscFlags mfScTrace)) (by decide)).trans
        (p.erase_setMisc_clear (by decide))
    refine (CallLights.calls ((callLights_of_erase herase).trans (lights_causeSig _ ?_ _))).run
    exact .inr (((Calm.quiet (μ := μ) herase).alive _).mpr hcan.alive)
  · generalize hs1 : (if (s.mfIsset s.procPtr mfScTrace || s.mfIsset s.procPtr mfScDefer) = true then
        s.modProc s.procPtr fun p => p.setMisc (clearBits p.pMiscFlags mfScDefer ||| mfScActive)
      else s) = s1
    have herase : s1.erase = s.erase := by
      rw [← hs1]
      split
      · refine erase_modProc _ _ _ fun p => ?_
        exact (Proc.erase_setMisc_or (p.setMisc (clearBits p.pMiscFlags mfScDefer))
          (by decide)).trans (p.erase_setMisc_clear (by decide))
      · rfl
    refine .after herase hgood hcan fun hgood1 hcan1 => ?_
    split_ifs with hcheck
    · exact CallSteps.run .refl
    refine s1.run_sysCallSwitch hgood1 hcan1 (by simpa using hcheck) henv ?_
    refine hself.imp_right fun hnot hnames => hnot ⟨hnames.1, hnames.2.1, ?_⟩
    rw [← hnames.2.2]
    exact (frame_congr (fun u => u.isokendpt t.srcDstE) herase rfl).symm

theorem run_trap : CallRun μ s (s.trap t) := by
  unfold trap
  refine (s.run_sysCall hgood hcan henv hself).quiet ?_
  exact erase_modProc _ _ _ fun _ => rfl

end

/-! ## Losing an endpoint -/

/-- The current task can run and replies to a process that exists. -/
def MayReply (dstE : Int) : Prop :=
  s.procIsRunnable s.procPtr = true ∧ (s.isokendpt dstE).isSome = true

instance (dstE : Int) : Decidable (s.MayReply dstE) := by
  unfold MayReply
  infer_instance

theorem run_lockSend {m : Buffer} (hgood : Good μ s) (hmay : s.MayReply dstE)
    (hslot : μ.tornTable ∨ s.mfIsset s.procPtr mfDelivermsg = false)
    (hself : μ.selfWait ∨ s.isokendpt dstE ≠ some s.procPtr) : CallRun μ s (s.lockSend dstE m).2 := by
  obtain ⟨dst, hdst⟩ := Option.isSome_iff_exists.mp hmay.2
  refine s.run_miniSend m false hgood (s.canTake_of_runnable hmay.1 hslot) hdst ?_
  exact .inr (hself.imp_right fun hne heq => hne (heq ▸ hdst))

section

variable (hdeaths : μ.deaths)
include hdeaths

section

variable (hend : s.rtsIsset rc rtsNoEndpoint = true)
include hend

theorem steps_withdrawSender :
    Steps μ s (s.withdrawSender rc) ∧ (s.withdrawSender rc).rtsIsset rc rtsNoEndpoint = true := by
  unfold withdrawSender
  split_ifs with hsend
  · split
    · exact ⟨lights_stop.steps, hend⟩
    rename_i htarget
    split
    · exact ⟨lights_stop.steps, hend⟩
    rename_i xpp hseek
    refine ⟨.single (.withdraw s hdeaths hend hsend htarget hseek), ?_⟩
    unfold rtsIsset at hend ⊢
    rw [record_proc, modProc_proc_self]
    refine (isSet_clearBits_of_disjoint (by decide)).trans ?_
    exact (frame_congr (fun t => t.rtsIsset rc rtsNoEndpoint) (s.unmessaged_unlinkSender rc xpp) rfl).trans hend
  · exact ⟨.refl, hend⟩

theorem steps_releaseWaiter {rp : Slot} : Steps μ s (s.releaseWaiter rc rp) ∧
      (s.releaseWaiter rc rp).rtsIsset rc rtsNoEndpoint = true := by
  set s1 := s.modPriv (s.proc rp).pPriv fun sp =>
    { sp with sNotifyPending := sp.sNotifyPending &&& ~~~(1#32 <<< (s.privOf rc).sId.val) }
  have herase : s1.erase = s.erase := erase_modPriv fun _ => rfl
  have hsteps1 : Steps μ s s1 := (lights_of_erase herase).steps
  unfold releaseWaiter
  dsimp only
  split
  · exact ⟨.refl, hend⟩
  generalize hs2 : (if (s1.rtsIsset rp rtsReceiving &&
      (s1.proc rp).pGetfromE == (s1.proc rc).pEndpoint) = true then
      (s1.modProc rp fun p => { p with pRetreg := esrcdied }).rtsUnset rp rtsReceiving
    else s1) = s2
  have hrecv : Steps μ s1 s2 ∧ s2.rtsIsset rc rtsNoEndpoint = true := by
    rw [← hs2]
    have herr : (s1.modProc rp fun p => { p with pRetreg := esrcdied }).erase = s1.erase :=
      erase_modProc _ _ _ fun _ => rfl
    split
    · refine ⟨(lights_of_erase herr).steps.tail (.stopRecv _ rp), ?_⟩
      rw [rtsIsset_rtsUnset_of_disjoint _ _ _ (by decide) (by decide)]
      exact (((Calm.quiet (μ := μ) herr).noEndpoint rc).trans
        ((Calm.quiet (μ := μ) herase).noEndpoint rc)).trans hend
    · exact ⟨.refl, ((Calm.quiet (μ := μ) herase).noEndpoint rc).trans hend⟩
  have hsteps2 := hsteps1.trans hrecv.1
  split_ifs with hsend
  · simp only [Bool.and_eq_true, beq_iff_eq] at hsend
    have herr : (s2.modProc rp fun p => { p with pRetreg := edstdied }).erase = s2.erase :=
      erase_modProc _ _ _ fun _ => rfl
    have hc : Calm μ s2 _ := Calm.quiet herr
    have hend2 := (hc.noEndpoint rc).trans hrecv.2
    refine ⟨(hsteps2.trans (lights_of_erase herr).steps).tail
      (.orphan _ hdeaths hend2 ((hc.sending rp).trans hsend.1) ?_), ?_⟩
    · rw [hc.sendto rp, hc.endpoint rc, hsend.2]
    · exact (rtsIsset_rtsUnset_of_disjoint _ _ _ (by decide) (by decide)).trans hend2
  · exact ⟨hsteps2, hrecv.2⟩

theorem steps_releaseWaiters (rps : List Slot) : Steps μ s (s.releaseWaiters rc rps) := by
  induction rps generalizing s with
  | nil => exact .refl
  | cons rp rps ih =>
    obtain ⟨hsteps, hend'⟩ := s.steps_releaseWaiter hdeaths hend
    exact hsteps.trans (ih _ hend')

end

theorem steps_clearEndpoint (rc : Slot) (hlive : s.isemptyp rc = false → μ.zombie ∨ s.Alive rc) :
    Steps μ s (s.clearEndpoint rc) := by
  unfold clearEndpoint
  split
  · exact lights_stop.steps
  rename_i hempty
  split
  · exact lights_stop.steps
  have hdie : Steps μ s ((s.rtsSet rc rtsNoEndpoint).record (.died rc)) :=
    .single (.die s rc hdeaths (hlive (by simpa using hempty)))
  have hend : ((s.rtsSet rc rtsNoEndpoint).record (.died rc)).rtsIsset rc rtsNoEndpoint =
      true := by
    rw [rtsIsset, record_proc, flags_rtsSet, if_pos rfl, isSet_or_self]
  dsimp only
  generalize (s.rtsSet rc rtsNoEndpoint).record (.died rc) = s1 at hdie hend ⊢
  generalize hs2 : (if isSet (s1.privOf rc).sFlags sysProc = true then
    s1.modPriv (s1.proc rc).pPriv fun sp => { sp with sAsynsize := 0 } else s1) = s2
  have herase : s2.erase = s1.erase := by
    rw [← hs2]
    split
    · exact erase_modPriv fun _ => rfl
    · rfl
  have hend2 := ((Calm.quiet (μ := μ) herase).noEndpoint rc).trans hend
  obtain ⟨hwithdraw, hend3⟩ := s2.steps_withdrawSender hdeaths hend2
  refine ((hdie.trans (lights_of_erase herase).steps).trans hwithdraw).trans ?_
  refine (ReflTransGen.single (.endRecv _ hdeaths hend3)).trans
    (steps_releaseWaiters _ hdeaths ?_ _)
  unfold rtsIsset at hend3 ⊢
  rw [modProc_proc_self]
  exact (isSet_clearBits_of_disjoint (by decide)).trans hend3

end

/-! ## Other kernel calls -/

theorem steps_delivermsg (hslot : s.mfIsset rp mfDelivermsg = true)
    (hlive : μ.zombie ∨ s.Alive rp) (mapped : Bool) : Steps μ s (s.delivermsg rp mapped).2 := by
  unfold delivermsg
  split
  · exact .single (.copyOut s rp hslot)
  unfold vmSuspend
  dsimp only
  have hset : Lights μ s (s.rtsSet rp rtsVmrequest) :=
    .single (.set s rp (by decide) (by decide) hlive)
  have hreq := hset.tail (.quiet (erase_modProc (s.rtsSet rp rtsVmrequest) rp (fun p =>
    { p with
      vmTarget := ((s.rtsSet rp rtsVmrequest).proc rp).pEndpoint
      vmType := .delivermsg
      vmNextrequestor := (s.rtsSet rp rtsVmrequest).vmrequest }) fun _ => rfl))
  refine Lights.steps ?_
  split
  · exact (hreq.trans (lights_miniNotify _ _ _).lights).tail (.quiet rfl)
  · exact hreq.tail (.quiet rfl)

theorem steps_doExec {endpt : Int} (hslot : μ.discards ∨ ∀ rp, s.isokendpt endpt = some rp →
    s.mfIsset rp mfDelivermsg = false) : Steps μ s (s.doExec endpt).2 := by
  unfold doExec
  split
  · exact .refl
  rename_i rp hrp
  generalize hs1 : (if s.mfIsset rp mfDelivermsg = true then
    ((s.modProc rp fun p => p.setMisc (clearBits p.pMiscFlags mfDelivermsg)).record
      (.discarded rp (s.proc rp).pDelivermsg)).modProc rp fun p => { p with pDelivermsgLin := 0 }
    else s) = s1
  have hdrop : Steps μ s s1 := by
    rw [← hs1]
    split_ifs with hfull
    · have hdiscards : μ.discards :=
        hslot.resolve_right fun hempty => nomatch hfull.symm.trans (hempty rp hrp)
      refine (ReflTransGen.single (.discard s rp hdiscards hfull)).tail (.light (.quiet ?_))
      exact erase_modProc _ _ _ fun _ => rfl
    · exact .refl
  refine (hdrop.tail (.stopRecv s1 rp)).tail (.light (.quiet ?_))
  exact erase_modProc _ _ _ fun p => p.erase_setMisc_clear (by decide)

theorem steps_doKill (hdeaths : μ.deaths) (hgood : Good μ s) {endpt : Int} {sig : Nat} :
    Steps μ s (s.doKill endpt sig).2 := by
  unfold doKill
  split
  · exact .refl
  rename_i rp hrp
  split
  · exact .refl
  split
  · exact .refl
  · have hsig := (s.lights_causeSig (hgood.names hrp).alive sig).lights.steps
    split
    · exact hsig.trans (steps_clearEndpoint _ hdeaths rp (hgood.mono hsig).live)
    · exact hsig

theorem steps_doGetksig (hshake : μ.handshake) : Steps μ s s.doGetksig := by
  unfold doGetksig
  split
  · exact .refl
  · exact .single (.getksig s _ hshake)

theorem erase_setVtimer {p : Proc} {which value : Int} : (setVtimer p which value).erase = p.erase := by
  have hclear : ∀ x f : BitVec 16, mfDelivermsg &&& f = 0#16 →
      clearBits x f &&& mfDelivermsg = x &&& mfDelivermsg := fun x f hf =>
    congrArg Proc.pMiscFlags (Proc.erase_setMisc_clear (p.setMisc x) hf)
  have hor : ∀ x f : BitVec 16, f &&& mfDelivermsg = 0#16 →
      (x ||| f) &&& mfDelivermsg = x &&& mfDelivermsg := fun x f hf =>
    congrArg Proc.pMiscFlags (Proc.erase_setMisc_or (p.setMisc x) hf)
  have hmisc : (setVtimer p which value).pMiscFlags &&& mfDelivermsg =
      p.pMiscFlags &&& mfDelivermsg := by
    unfold setVtimer
    split <;> split
    all_goals
      first
        | rw [hor _ _ (by decide), hclear _ _ (by decide)]
        | rw [hclear _ _ (by decide)]
  simp only [Proc.erase, hmisc]
  rfl

theorem erase_doVtimer {endpt which : Int} {set : Bool} {value : Int} :
    (s.doVtimer endpt which set value).2.2.erase = s.erase := by
  unfold doVtimer
  repeat' split
  all_goals first
    | rfl
    | exact s.erase_modProc _ _ fun p => erase_setVtimer

theorem lights_doEndksig (hshake : μ.handshake) {endpt : Int} : Lights μ s (s.doEndksig endpt).2 := by
  unfold doEndksig
  split
  · exact .refl
  split
  · exact .refl
  · split_ifs with hsig
    · exact .single (.endksig s _ hshake (by simpa using hsig))
    · exact .refl

/-! ## The timer interrupt -/

theorem erase_modProcIf (c : Bool) (rp : Slot) (f : Proc → Proc)
    (hf : ∀ p : Proc, (f p).erase = p.erase) : (s.modProcIf c rp f).erase = s.erase := by
  unfold modProcIf
  split
  · exact erase_modProc _ _ _ hf
  · rfl

theorem erase_chargeTick : s.chargeTick.erase = s.erase := by
  unfold chargeTick
  rw [erase_modProcIf, erase_modProcIf, erase_modProcIf, erase_modProcIf, erase_modProcIf,
    erase_modProc]
  all_goals exact fun _ => rfl

theorem lights_vtimerCheck (hlive : μ.zombie ∨ s.Alive rp) : CallLights μ s (s.vtimerCheck rp) := by
  have hexpire : ∀ (t : State) (f : Proc → Proc), (∀ p, (f p).erase = p.erase) →
      (μ.zombie ∨ t.Alive rp) → ∀ sig, CallLights μ t ((t.modProc rp f).causeSig rp sig) := by
    intro t f hf hlive sig
    have herase : (t.modProc rp f).erase = t.erase := erase_modProc _ _ _ hf
    exact (callLights_of_erase herase).trans
      (lights_causeSig _ (hlive.imp_right ((Calm.quiet (μ := μ) herase).alive rp).mpr) sig)
  unfold vtimerCheck
  dsimp only
  generalize hs1 : (if (s.mfIsset rp mfVirtTimer && decide ((s.proc rp).pVirtLeft ≤ 0)) = true then
    (s.modProc rp fun p =>
      { p with pMiscFlags := clearBits p.pMiscFlags mfVirtTimer, pVirtLeft := 0 }).causeSig
        rp sigvtalrm else s) = s1
  have hvirt : CallLights μ s s1 := by
    rw [← hs1]
    split
    · refine hexpire s _ ?_ hlive _
      exact fun p => p.erase_setMisc_clear (f := mfVirtTimer) (by decide)
    · exact .refl
  split
  · refine hvirt.trans (hexpire s1 _ ?_ (hlive.imp_right (hvirt.calm.alive rp).mpr) _)
    exact fun p => p.erase_setMisc_clear (f := mfProfTimer) (by decide)
  · exact hvirt

/-- The process that is charged and the one that pays for it exist. -/
def Charged (μ : Mode) (s : State) : Prop := μ.zombie ∨ s.Alive s.procPtr ∧ s.Alive s.billPtr

theorem lights_apTimerIntHandler (hlive : Charged μ s) : CallLights μ s s.apTimerIntHandler := by
  unfold apTimerIntHandler
  dsimp only
  have hcurrent : μ.zombie ∨ s.Alive s.procPtr := hlive.imp_right And.left
  have hpays : μ.zombie ∨ s.Alive s.billPtr := hlive.imp_right And.right
  have halive : ∀ {t : State}, CallLights μ s t → ∀ {i}, μ.zombie ∨ s.Alive i → μ.zombie ∨ t.Alive i :=
    fun ht _ hi => hi.imp_right (ht.calm.alive _).mpr
  have hbegin : CallLights μ s s.chargeTick := callLights_of_erase s.erase_chargeTick
  have hcharge : CallLights μ s (s.chargeTick.vtimerCheck s.procPtr) :=
    hbegin.trans (lights_vtimerCheck _ (halive hbegin hcurrent))
  generalize hs2 : (if s.procPtr ≠ s.billPtr then
    (s.chargeTick.vtimerCheck s.procPtr).vtimerCheck s.billPtr
    else s.chargeTick.vtimerCheck s.procPtr) = s2
  have hcheck : CallLights μ s s2 := by
    rw [← hs2]
    split
    · exact hcharge.trans (lights_vtimerCheck _ (halive hcharge hpays))
    · exact hcharge
  split
  · exact hcheck.tail ⟨.set s2 _ (by decide) (by decide) (halive hcheck hcurrent), .single (.set s2 _ (by decide) (by decide))⟩
  · exact hcheck

theorem lights_bspTimerIntHandler (hlive : Charged μ s) : CallLights μ s s.bspTimerIntHandler := by
  unfold bspTimerIntHandler
  dsimp only
  have htick : CallLights μ s { s with
      realtime := wrap32 (s.realtime + (s.lostTicks + 1)), lostTicks := 0 } :=
    callLights_of_erase rfl
  have hap := htick.trans (lights_apTimerIntHandler _ hlive)
  split
  · exact hap.trans (lights_miniNotify _ _ _)
  · exact hap

end State

end Minix.Kernel
