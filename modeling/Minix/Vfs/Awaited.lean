/-
  Vfs/Awaited.lean --- who completes the call of a process that waits for a driver.

  The process goes on because of its driver, or because the process manager says so, in the
  runs in which every answer is for a process that waits for its sender (`Addressed`).
-/
import Minix.Vfs.Suspension

set_option autoImplicit false

namespace Minix.Vfs

variable {e' e : Endpoint} {C : Cause → Prop} {s : State} {input : Input}

/-- A process that waits for a driver. -/
def Fproc.OnDriver (f : Fproc) : Prop := f.blockedOn = .other ∨ f.blockedOn = .dopen

namespace State

variable {s s' s'' : State} {p q : ProcNr} {e : Endpoint}

/-- The process still waits as before, and has not been answered. -/
structure Stays (s : State) (p : ProcNr) (e : Endpoint) (s' : State) : Prop where
  slot : (s'.proc p).pid = (s.proc p).pid ∧ (s'.proc p).endpoint = (s.proc p).endpoint
  blockedOn : (s'.proc p).blockedOn = (s.proc p).blockedOn
  task : (s'.proc p).task = (s.proc p).task
  log : ∃ new, s'.log = new ++ s.log ∧ ∀ r, Event.reply e r ∉ new

namespace Stays

theorem refl {s : State} {p : ProcNr} {e : Endpoint} : s.Stays p e s := ⟨⟨rfl, rfl⟩, rfl, rfl, [], rfl, by simp⟩

theorem trans (h : s.Stays p e s') (h' : s'.Stays p e s'') : s.Stays p e s'' where
  slot := ⟨h'.slot.1.trans h.slot.1, h'.slot.2.trans h.slot.2⟩
  blockedOn := h'.blockedOn.trans h.blockedOn
  task := h'.task.trans h.task
  log := by
    obtain ⟨new, hnew, hall⟩ := h.log
    obtain ⟨new', hnew', hall'⟩ := h'.log
    refine ⟨new' ++ new, by rw [hnew', hnew, List.append_assoc], fun r hr => ?_⟩
    rcases List.mem_append.mp hr with hr | hr
    · exact hall' r hr
    · exact hall r hr

/-- Nothing is said to the process. -/
theorem of_eq (hproc : s'.proc p = s.proc p) (hlog : s'.log = s.log ∨ ∃ x, s'.log = x :: s.log ∧ ∀ r, x ≠ .reply e r) :
    s.Stays p e s' := by
  refine ⟨by rw [hproc]; exact ⟨rfl, rfl⟩, by rw [hproc], by rw [hproc], ?_⟩
  rcases hlog with hlog | ⟨x, hlog, hx⟩
  · exact ⟨[], hlog, by simp⟩
  · exact ⟨[x], hlog, fun r hr => hx r (List.mem_singleton.mp hr).symm⟩

/-- Somebody else is answered. -/
theorem of_reply {r : Int} (hproc : s'.proc p = s.proc p) (hlog : s'.log = .reply e' r :: s.log) (hne : e' ≠ e) :
    s.Stays p e s' :=
  .of_eq hproc (.inr ⟨_, hlog, fun _ heq => hne (Event.reply.inj heq).1⟩)

end Stays

/-- `revive` is for one process. -/
theorem revive_stays (hend : (s.proc p).endpoint = some e) (hne : e' ≠ e) (r : Int) :
    s.Stays p e (s.revive e' r) := by
  have hother : ∀ q, (s.proc q).endpoint = some e' → p ≠ q := by
    rintro q hq rfl
    exact hne (Option.some.inj (hq.symm.trans hend))
  have hrev := s.revive_revives e' r
  generalize s.revive e' r = t at hrev
  cases hrev with
  | same => exact .refl
  | marked q hq => exact .of_eq (setProc_proc_of_ne s _ (hother q hq)) (.inl rfl)
  | went q r' hq => exact .of_reply (goOn_other (hother q hq)) rfl hne
  | ended q hq =>
    refine .of_reply ?_ rfl hne
    exact (goOn_other (hother q hq)).trans (setProc_proc_of_ne s _ (hother q hq))
  | dropped q hq =>
    obtain ⟨fds, inuse, filp, vnode, pfs, panics, heq, -⟩ := (s.goOn q).dropOpen_eq
    rw [heq]
    exact .of_reply ((Function.update_of_ne (hother q hq) ..).trans (goOn_other (hother q hq))) rfl hne

/-- What is woken up has not waited for a driver, unless that has died. -/
theorem Balanced.micro_stays (h : s.Balanced) (hrefs : s.Refs) {D : Endpoint → Prop} (hend : (s.proc p).endpoint = some e)
    (hp : (s.proc p).OnDriver) (hD : ¬ D (s.proc p).task) (hstep : Micro D s s') : s.Stays p e s' := by
  have hne : ∀ q e', (s.proc q).endpoint = some e' → (s.proc q).blockedOn ≠ (s.proc p).blockedOn → e' ≠ e := by
    rintro q e' hq hb rfl
    refine hb ?_
    rw [hrefs.endpoint_inj hend (hrefs.slot q _ hq)]
  cases hstep with
  | sel i e' => exact .of_eq rfl (.inl rfl)
  | filp n f => exact .of_eq rfl (.inl rfl)
  | wakeup i r hreq =>
    obtain ⟨q, hq⟩ := Option.isSome_iff_exists.mp hreq
    obtain ⟨hqend, hqb⟩ := h.sel i q hq
    have hstays := revive_stays hend (hne q _ hqend (by rcases hp with hp | hp <;> simp [hqb, hp])) r
    exact ⟨hstays.slot, hstays.blockedOn, hstays.task, hstays.log⟩
  | release v call q hrel hv hcall =>
    have hq := hrefs.released hrel hv hcall
    have hqne : (s.proc q).blockedOn ≠ (s.proc p).blockedOn := by
      rcases hq.2.1 with hb | hb <;> rcases hp with hp | hp <;> simp [hb, hp]
    obtain ⟨e', he'⟩ := Option.isSome_iff_exists.mp ((h.fair q).endpoint hq.1)
    have hstays := revive_stays hend (hne q e' he' hqne) 0
    unfold releaseOne
    simp only [he']
    split
    · exact ⟨hstays.slot, hstays.blockedOn, hstays.task, hstays.log⟩
    · exact ⟨hstays.slot, hstays.blockedOn, hstays.task, hstays.log⟩
  | unlock q e' hblocked hq =>
    exact revive_stays hend (hne q e' hq (by rcases hp with hp | hp <;> simp [hblocked, hp])) 0
  | undriver q e' r hblocked hq hdriver =>
    refine revive_stays hend ?_ r
    rintro rfl
    refine hD ?_
    rw [← hrefs.endpoint_inj hend (hrefs.slot q _ hq)]
    exact hdriver

theorem Stays.onDriver (h : s.Stays p e s') (hp : (s.proc p).OnDriver) : (s'.proc p).OnDriver := by
  unfold Fproc.OnDriver
  rw [h.blockedOn]
  exact hp

theorem Stays.endpoint (h : s.Stays p e s') (hend : (s.proc p).endpoint = some e) : (s'.proc p).endpoint = some e :=
  h.slot.2.trans hend

section

variable (h : s.Balanced) (hrefs : s.Refs) (hend : (s.proc p).endpoint = some e)
    (hp : (s.proc p).OnDriver)
include h hrefs hend hp

theorem Balanced.wakes_stays (hrun : Wakes (fun _ => False) s s') : s.Stays p e s' := by
  induction hrun with
  | refl => exact .refl
  | tail hrun hstep ih =>
    exact ih.trans ((h.wakes hrefs hrun).micro_stays (hrefs.wakes hrun).1 (ih.endpoint hend) (ih.onDriver hp) (fun hf => hf) hstep)

/-- A select is forgotten. -/
theorem Balanced.forget_stays {e' : Endpoint} : s.Stays p e (s.selectForget e') := by
  unfold selectForget
  split
  · exact .refl
  · rename_i i _
    have hstays := h.wakes_stays hrefs hend hp (s.selectCancelAll_wakes (D := fun _ => False) i).1
    exact ⟨hstays.slot, hstays.blockedOn, hstays.task, hstays.log⟩

/-- `unpause` is for one process. -/
theorem Balanced.unpause_stays (hne : e' ≠ e) (cancel : Option Int) : s.Stays p e (s.unpause e' cancel) := by
  rcases hq : s.isokendpt e' with _ | q
  · unfold State.unpause
    rw [hq]
    exact .refl
  have hqend := (isokendpt_eq_some hq).1
  have hpq : p ≠ q := by
    rintro rfl
    exact hne (Option.some.inj (hqend.symm.trans hend))
  have hfirst : s.Stays p e (s.unpaused q) := by
    unfold unpaused
    split
    · exact .of_eq (unmark_other s hpq) (.inl rfl)
    · exact .refl
  have hinterrupt : ∀ (t : State) (status : Int), t.Stays p e (t.interrupt q e' status) := fun t status =>
    .of_reply (goOn_other hpq) rfl hne
  have hwake := hfirst.trans (hinterrupt (s.unpaused q) eintr)
  have hrun := unpause_unpauses hq cancel
  generalize s.unpause e' cancel = t at hrun ⊢
  cases hrun with
  | same => exact .refl
  | waits => exact hfirst
  | woken => exact hwake
  | counted => exact ⟨hwake.slot, hwake.blockedOn, hwake.task, hwake.log⟩
  | select hb =>
    have hrev := (h.fair q).not_revived (hrefs.pid_ne hqend) (by simp [hb])
    have hsame : s.unpaused q = s := by
      unfold unpaused
      rw [hrev]
      rfl
    rw [hsame]
    exact (h.forget_stays hrefs hend hp).trans (hinterrupt _ eintr)
  | other hb reopen grant r =>
    exact (hfirst.trans (.of_eq (setProc_proc_of_ne (s.unpaused q) _ hpq) (.inl rfl))).trans (hinterrupt _ r)

end

theorem pfsReadwrite_log (s : State) (p : ProcNr) (v : VnodeNr) (ino : Nat) (rw : Rw) (pos n buf : Int) (c : Copy) :
    (s.pfsReadwrite p v ino rw pos n buf c).2.log = s.log ∨
      ∃ x, (s.pfsReadwrite p v ino rw pos n buf c).2.log = x :: s.log ∧ ∀ e r, x ≠ .reply e r := by
  unfold pfsReadwrite
  rcases s.pfs ino with _ | x
  · exact .inl rfl
  rcases rw with _ | _
  · exact .inr ⟨_, rfl, by simp⟩
  · simp only []
    split
    · exact .inr ⟨_, rfl, by simp⟩
    · exact .inr ⟨_, rfl, by simp⟩

theorem transfer_stays (s : State) (p : ProcNr) (e : Endpoint) (q : ProcNr) (v : VnodeNr) (ino : Nat) (rw : Rw) (pos n buf : Int)
    (c : Copy) : s.Stays p e (s.transfer q v ino rw pos n buf c).2 := by
  have hlog := s.pfsReadwrite_log q v ino rw pos n buf c
  obtain ⟨pfs, log, heq⟩ := s.pfsReadwrite_eq q v ino rw pos n buf c
  unfold transfer
  generalize s.pfsReadwrite q v ino rw pos n buf c = out at hlog heq
  obtain ⟨a, s1⟩ := out
  obtain rfl : s1 = _ := heq
  exact .of_eq rfl (hlog.imp id fun ⟨x, hx, hr⟩ => ⟨x, hx, hr e⟩)

/-- What must not be asked for if the process is to stay. -/
structure Unasked (C : Cause → Prop) (T e : Endpoint) : Prop where
  named : ∀ source f, C (.named source f) → f.OnDriver → f.task ≠ T
  died : ¬ C (.died T)
  reopened : ¬ C (.reopened T)
  restarted : ∀ major, ¬ C (.restarted major .other T)
  unpaused : ¬ C (.unpaused e)

/-- A process that waits for a driver stays as it is in every step that neither the driver nor the process manager
asks for. -/
theorem Balanced.op_stays (h : s.Balanced) (hrefs : s.Refs) (hend : (s.proc p).endpoint = some e)
    (hp : (s.proc p).OnDriver) (hC : Unasked C (s.proc p).task e) (hop : Op C s s') : s.Stays p e s' := by
  have hbusy : (s.proc p).blockedOn ≠ .none := by rcases hp with hp | hp <;> simp [hp]
  -- Another process has another endpoint.
  have hne : ∀ q e', (s.proc q).endpoint = some e' → q ≠ p → e' ≠ e := by
    rintro q e' hq hqp rfl
    exact hqp (hrefs.endpoint_inj hend (hrefs.slot q _ hq))
  have hidle : ∀ q, s.Idle q → p ≠ q := by
    rintro q hq rfl
    exact hbusy hq.2
  have hrestarted : ∀ {q s'}, s.Restarted q s' → p ≠ q → s.Stays p e s' := by
    intro q s' hr hpq
    cases hr with
    | same => exact .refl
    | went => exact .of_eq (setProc_proc_of_ne s _ hpq) (.inl rfl)
    | answered inuse flag hq => exact .of_reply (setProc_proc_of_ne s _ hpq) rfl (hne q _ hq (Ne.symm hpq))
  cases hop with
  | micro hstep => exact h.micro_stays hrefs hend hp hC.died hstep
  | quiet hq =>
    obtain ⟨fds, inuse, hproc⟩ := hq.proc p
    refine ⟨by rw [hproc]; exact ⟨rfl, rfl⟩, by rw [hproc], by rw [hproc], ?_⟩
    rcases hq.log with hlog | ⟨i, -, hlog⟩
    · exact ⟨[], hlog, by simp⟩
    · exact ⟨[.pfsNew i], hlog, by simp⟩
  | reply q e' r hq hb =>
    refine .of_reply rfl rfl (hne q e' hq ?_)
    rintro rfl
    exact hbusy hb
  | writeCall q n => exact .of_eq rfl (.inr ⟨_, rfl, by simp⟩)
  | panic why => exact .of_eq rfl (.inl rfl)
  | wait q f hq => exact .of_eq (setProc_proc_of_ne s f (hidle q hq)) (.inl rfl)
  | waitOpen q saved hq => exact .of_eq (suspend_other (hidle q hq)) (.inl rfl)
  | waitPipe q rw fd buf size hq => exact .of_eq (setProc_proc_of_ne _ _ (hidle q hq)) (.inl rfl)
  | slot i e' => exact .of_eq rfl (.inl rfl)
  | waitSelect q i e' saved hq => exact .of_eq (suspend_other (hidle q hq)) (.inl rfl)
  | named source q e' r hq hblocked hrev hcause =>
    refine revive_stays hend (hne q e' hq ?_) r
    rintro rfl
    exact hC.named source _ hcause hp rfl
  | unpause e' cancel hcause =>
    refine h.unpause_stays hrefs hend hp ?_ cancel
    rintro rfl
    exact hC.unpaused hcause
  | restartOne driver q hwait hcause =>
    refine hrestarted (s.restartOne_restarted driver q) ?_
    rintro rfl
    exact hC.reopened (hwait.2.2.1 ▸ hcause)
  | restartOpen major q hlive hwait hflag hcause =>
    refine hrestarted (s.restartOpen_restarted major q) ?_
    rintro rfl
    have hother := hp.resolve_right hwait
    rw [hother] at hcause
    exact hC.restarted major hcause
  | flag P hP =>
    refine ⟨?_, ?_, ?_, [], rfl, by simp⟩
    all_goals
      simp only []
      split <;> simp
  | fork parent child pid hsend =>
    obtain ⟨-, ⟨q, hq, -, -⟩, hrange, hfree⟩ := hsend
    unfold pmFork
    rw [hq]
    simp only []
    rw [dif_pos hrange]
    refine .of_eq (setProc_proc_of_ne s _ fun heq => ?_) (.inl rfl)
    have hval : (p.val : Int) = child.nr := by
      rw [heq]
      exact Int.toNat_of_nonneg hrange.1
    have hdead := hfree p hval
    rw [hrefs.live_of_endpoint hend] at hdead
    simp at hdead
  | exit q e' hq hcause =>
    refine .of_eq (setProc_proc_of_ne s _ ?_) (.inl rfl)
    rintro rfl
    obtain rfl : e' = e := Option.some.inj (hq.symm.trans hend)
    exact hC.unpaused hcause
  | take q hlive hrev =>
    have hne : p ≠ q := by
      rintro rfl
      have hpid : (s.proc p).pid ≠ 0 := by simpa [live] using hlive
      rcases (h.fair p).revived hpid hrev with hb | hb <;> rcases hp with hp | hp <;> simp [hb] at hp
    exact .of_eq ((setProc_proc_of_ne _ _ hne).trans (unmark_other s hne)) (.inl rfl)
  | transfer q n v ino rw pos k buf c => exact s.transfer_stays p e q v ino rw pos k buf c
  | partly q n hq => exact .of_eq (setProc_proc_of_ne s _ (hidle q hq)) (.inl rfl)

end State

/-- The message comes from the driver, tells of its end or of its start, or is what the process manager says of the
process. -/
def Message.Awaited (T e : Endpoint) : Message → Prop
  | .devRevive source _ _ _ => source = T
  | .devNotify source _ => source = T
  | .reopenReply source _ _ _ => source = T
  | .call _ (.mapdriver _ driver _ _ _) => driver = T
  | .pmExit e' _ _ => e' = T ∨ e' = e
  | .pmUnpause e' _ => e' = e
  | _ => False

/-- Every DEV_REVIVE is for a process that waits for its sender, and whoever has the flag of a driver that is started
again waits for that driver. -/
def Addressed (s : State) (input : Input) : Prop :=
  Orderly s input ∧ (∀ source f, input.Causes s (.named source f) → f.OnDriver → f.task = source) ∧
    ∀ major task, input.Causes s (.restarted major .other task) → input.Causes s (.reopened task)

theorem Addressed.unasked (h : Addressed s input) {T : Endpoint}
    (hnot : ∀ m, input = .message m → ¬ m.Awaited T e) : State.Unasked (input.Causes s) T e := by
  have hreopened : ¬ input.Causes s (.reopened T) := by
    rcases input with env | m
    · exact fun hc => hc
    · intro hc
      cases hc with
      | mapped => exact hnot _ rfl rfl
      | reopened => exact hnot _ rfl rfl
  refine ⟨fun source f hc hf htask => ?_, ?_, hreopened, fun major hc => hreopened (h.2.2 major T hc), ?_⟩
  · have hsource := h.2.1 source f hc hf
    rcases input with env | m
    · exact hc
    · cases hc with
      | named hnamed => exact hnot _ rfl (hsource.symm.trans htask)
      | answered hmem hnamed => exact hnot _ rfl (hsource.symm.trans htask)
  · rcases input with env | m
    · exact fun hc => hc
    · intro hc
      cases hc with
      | died => exact hnot _ rfl (.inl rfl)
  · rcases input with env | m
    · exact fun hc => hc
    · intro hc
      cases hc with
      | interrupted => exact hnot _ rfl rfl
      | exits => exact hnot _ rfl (.inr rfl)

theorem State.Balanced.steps_stays {s' : State} {p : ProcNr} (h : s.Balanced) (hrefs : s.Refs)
    (hfit : State.Fit C) (hend : (s.proc p).endpoint = some e) (hp : (s.proc p).OnDriver) (hC : State.Unasked C (s.proc p).task e)
    (hsteps : State.Steps C s s') : s.Stays p e s' := by
  have hboth : s'.Balanced ∧ s.Stays p e s' := by
    refine hsteps.invariant (I := fun t => t.Balanced ∧ s.Stays p e t) (fun t t' ht hI hop => ?_) hrefs ⟨h, .refl⟩
    obtain ⟨hbal, hstays⟩ := hI
    refine ⟨hbal.op ht hfit hop, hstays.trans (hbal.op_stays ht (hstays.endpoint hend) (hstays.onDriver hp) ?_ hop)⟩
    rw [hstays.task]
    exact hC
  exact hboth.2

/-- The terminal. -/
def NodeInfo.tty : NodeInfo := ⟨0, 7, .charSpecial, 0, some (⟨4, by decide⟩, 0)⟩

/-- An open of the terminal that the driver answers at once. -/
def Call.openTty : Call :=
  .openFile false ⟨true, true, false, false, false, false⟩ (.node .tty false) ⟨0, 0, some 0, none, false⟩

/-- A process has opened the terminal. -/
def bootTty : State := boot.iterate (.message (.call bootA .openTty))

/-- A process reads from the terminal, and waits for the driver. -/
def bootTtyRead : State := bootTty.iterate (.message (.call bootA (.read 0 0 1 .plain)))

theorem reached_bootTtyRead {P : State → Input → Prop} (hopen : P boot (.message (.call bootA .openTty)))
    (hread : P bootTty (.message (.call bootA (.read 0 0 1 .plain)))) : Reached P bootTtyRead := by
  have htty : Reached P bootTty := reached_boot.step hopen (.message boot _ rfl rfl ⟨by decide, by decide⟩)
  exact htty.step hread (.message bootTty _ (by decide +kernel) (by decide +kernel) ⟨by decide +kernel, by decide +kernel⟩)

theorem addressed_of_no_cause (h : ∀ c, ¬ input.Causes s c) : Addressed s input :=
  ⟨orderly_of_no_cause h, fun _ _ hc => absurd hc (h _), fun _ _ hc => absurd hc (h _)⟩

end Minix.Vfs
