/-
  Kernel/MessageRun.lean --- runs of message passing.

  In such a run processes write to their memory and make system calls, the kernel itself sends notifications,
  programs are replaced, and processes lose their endpoints.  The invariant `MsgInv`
  is what all results about blocked processes rest on.  Its second half holds in runs
  in which no process asks to wait for itself.
-/
import Minix.Kernel.Deadlock

set_option autoImplicit false

namespace Minix.Kernel

open Minix.Foundation Relation State

variable {s : State}

/-! ## The invariant -/

/-- The links and flags of blocked processes are consistent; in a careful run, nobody
waits in a cycle. -/
structure MsgInv (careful : Prop) (s : State) : Prop where
  ipc : s.IpcInv
  attended : s.Attended
  sources : careful → s.SourcesOk
  acyclic : careful → Acyclic s.net.Waits

/-- Changes in a call: tables may fail, and a process may wait for itself unless the
run is careful. -/
def messageMode (careful : Prop) : Mode := ⟨True, ¬ careful, False, False, True, True⟩

theorem State.IpcInv.sound (h : s.IpcInv) : s.Sound where
  free := h.free
  queue := by
    intro caller src test xpp hend halive hseek hget
    rcases (h.path caller halive hend).seek_cases (h.length_lt) hseek with
      ⟨before, n, after, hqueue, _, hn, _⟩ | ⟨_, hnone, _⟩
    · have hnsrc : n = src := Option.some.inj (hn.symm.trans hget)
      have hmem : src ∈ pendingSenders s.log caller := by simp [hqueue, hnsrc]
      have hsent := s.net_sending_eq_some_iff.mp ((h.wf.mem src caller).mp hmem)
      exact h.free.alive hsent.1 (by decide)
    · exact nomatch hnone.symm.trans hget

namespace MsgInv

variable {careful : Prop} {s s' : State}

variable (h : MsgInv careful s)
include h

theorem step (hstep : Step (messageMode careful) s s') : MsgInv careful s' := by
  have hself : careful → ¬ (messageMode careful).selfWait := fun hc hnot => hnot hc
  have hipc : IpcStep careful s s' := hstep.ipc id id h.ipc
    (fun hmay hc => hmay.safe (hself hc) h.ipc (h.sources hc) (h.acyclic hc))
    fun hmay hc hsend d hd => hmay.safe (hself hc) h.ipc (h.sources hc) (h.acyclic hc) hsend hd
  refine ⟨hipc.inv, hipc.attended h.attended, fun hc => hipc.sources (h.sources hc), fun hc => ?_⟩
  rcases hipc.net with heq | hnet
  · rw [heq]
    exact h.acyclic hc
  · exact Net.acyclic_step (h.acyclic hc) (hnet.imp fun _ => hc)

theorem steps (hsteps : Steps (messageMode careful) s s') : MsgInv careful s' := by
  induction hsteps with
  | refl => exact h
  | tail _ hstep ih => exact ih.step hstep

theorem good : Good (messageMode careful) s :=
  .inr fun _ hsteps => (h.steps hsteps).ipc.sound

theorem clearEndpoint {rc : Slot} : MsgInv careful (s.clearEndpoint rc) := by
  obtain ⟨hinv, hatt, hsrc, hnet⟩ := h.ipc.clearEndpoint h.attended
  refine ⟨hinv, hatt, fun hc => hsrc (h.sources hc), fun hc => ?_⟩
  generalize (s.clearEndpoint rc).net = n at hnet
  induction hnet with
  | refl => exact h.acyclic hc
  | tail _ hstep ih => exact Net.acyclic_step ih hstep

end MsgInv

/-! ## Runs -/

/-- The operations of a run of message passing: a process that can run makes a call,
the kernel sends a notification, a process loses its endpoint, a program is replaced. -/
def MessageRun (s : State) : Op → Prop
  | .dispatch rp => s.procIsRunnable rp = true
  | .trap _ => s.procIsRunnable s.procPtr = true
  | .lockSend dstE _ => s.MayReply dstE
  | .notify _ _ => True
  | .store _ _ _ => True
  | .clearEndpoint _ => True
  | .request _ (.exec _) => True
  | _ => False

instance (s : State) (op : Op) : Decidable (MessageRun s op) := by
  unfold MessageRun
  split <;> infer_instance

/-- No call that may block names its caller. -/
def NamesOther (s : State) : Op → Prop
  | .trap t => ¬ s.NamesCaller s.procPtr t
  | .lockSend dstE _ => s.isokendpt dstE ≠ some s.procPtr
  | _ => True

instance (s : State) (op : Op) : Decidable (NamesOther s op) := by
  unfold NamesOther State.NamesCaller
  split <;> infer_instance

theorem MsgInv.op {careful : Prop} (h : MsgInv careful s) {op : Op}
    (hop : MessageRun s op) (hother : careful → NamesOther s op) : MsgInv careful (op.run s) := by
  cases op with
  | dispatch rp =>
    exact ⟨⟨h.ipc.endpoints, h.ipc.free, alive_of_runnable hop, h.ipc.target, h.ipc.path, h.ipc.wf, h.ipc.served⟩,
      h.attended, h.sources, h.acyclic⟩
  | trap t =>
    refine h.steps (s.run_trap h.good (s.canTake_of_runnable hop (.inl trivial))
      (.inl trivial) ?_).steps
    by_cases hc : careful
    · exact .inr (hother hc)
    · exact .inl hc
  | lockSend dstE m =>
    refine h.steps (s.run_lockSend h.good hop (.inl trivial) ?_).steps
    by_cases hc : careful
    · exact .inr (hother hc)
    · exact .inl hc
  | notify src dstE => exact h.steps (s.lights_miniNotify src dstE).lights.steps
  | store rp addr entry =>
    exact h.steps (lights_of_erase (s.erase_modEntry rp addr fun _ => entry)).steps
  | clearEndpoint rc => exact h.clearEndpoint
  | request caller call =>
    cases call with
    | exec endpt =>
      have herase : ({ s with whoP := caller } : State).erase = s.erase := rfl
      exact (h.steps (lights_of_erase herase).steps).steps (steps_doExec _ (.inl trivial))
    | nice _ _ | chdeadline _ _ | fork _ _ _ | exit _ | kill _ _ | getksig | endksig _
    | privctl _ _ | vtimer _ _ _ _ | setalarm _ _ => exact absurd hop id
  | rtsSet _ _ | rtsUnset _ _ | rtsSetflags _ _ | requeue | schedcheck _ _ | tick | clockTask
  | balanceQueues | signal _ _ | delivermsg _ _ => exact absurd hop id

/-! ## Where runs start -/

/-- A state in which nobody is blocked in a send, with a sound process table. -/
structure State.EmptyQueues (s : State) : Prop where
  endpoints : s.EndpointsOk
  free : s.FreeExact
  current : s.Alive s.procPtr
  sending : ∀ i, s.rtsIsset i rtsSending = false
  queue : ∀ d, s.Alive d → s.rtsIsset d rtsNoEndpoint = false → (s.proc d).pCallerQ = none
  log : s.log = []

theorem State.EmptyQueues.ipcInv (h : s.EmptyQueues) : s.IpcInv where
  endpoints := h.endpoints
  free := h.free
  current := h.current
  target i hi := by cases (h.sending i).symm.trans hi
  path d halive hend := by
    rw [h.log]
    exact h.queue d halive hend
  wf := by
    have hsend := fun i => s.net_sending_of_not (h.sending i)
    have hqueue : ∀ d, s.net.queue d = [] := by
      intro d
      simp only [net, h.log]
      rfl
    refine ⟨fun d => ?_, fun p d => ?_, ?_, ?_⟩
    · rw [hqueue]
      exact List.nodup_nil
    · simp [hqueue, hsend]
    · intro p d x hp
      cases (hsend p).symm.trans hp
    · intro d x _ _ p hp
      rw [hqueue] at hp
      simp at hp
  served := by
    rw [h.log]
    trivial

theorem State.EmptyQueues.attended (h : s.EmptyQueues) : s.Attended := by
  intro i d hi
  exact nomatch (s.net_sending_of_not (h.sending i)).symm.trans hi

/-- A state in which nobody is blocked at all. -/
structure State.Unblocked (s : State) : Prop extends s.EmptyQueues where
  receiving : ∀ i, s.rtsIsset i rtsReceiving = false

theorem State.Unblocked.msgInv (h : s.Unblocked) : MsgInv True s where
  ipc := h.ipcInv
  attended := h.attended
  sources _ i hi := nomatch (h.receiving i).symm.trans hi
  acyclic _ x hcycle := by
    obtain ⟨y, hxy, _⟩ := TransGen.head'_iff.mp hcycle
    rcases hxy with hxy | hxy
    · exact nomatch (s.net_sending_of_not (h.sending x)).symm.trans hxy
    · exact nomatch (s.net_receiving_of_not (h.receiving x)).symm.trans hxy

/-- The kernel starts with nobody blocked. -/
theorem State.unblocked_boot : boot.Unblocked where
  endpoints := by
    unfold EndpointsOk
    decide +kernel
  free := by
    unfold FreeExact
    decide +kernel
  current := by
    unfold Alive
    decide +kernel
  sending := by decide +kernel
  queue := by
    unfold Alive
    decide +kernel
  log := by decide +kernel
  receiving := by decide +kernel

/-! ## Deadlock detection in runs -/

/-- Nobody waits in a cycle, deadlock detection ends after fewer iterations than there
are processes, and it reports a deadlock exactly if blocking the caller closes a cycle.
A call that goes ahead at once does not ask. -/
structure State.DeadlockExact (s : State) : Prop where
  acyclic : ∀ x, ¬ TransGen s.WaitsFor x x
  total : ∀ function cp d, d ≠ cp → ∃ n,
    s.deadlockLoop function cp (nrSlots - 1) (procNr d) 1 = .ok n ∧
      s.deadlock function cp (procNr d) = .ok n
  any : ∀ function cp, s.deadlock function cp endptAny = .ok 0
  reports : ∀ function cp d n, d ≠ cp → ¬ s.Rendezvous function cp d →
    s.deadlock function cp (procNr d) = .ok n → (n ≠ 0 ↔ s.ClosesCycle cp d)

/-- A loop that has ended ends in the same way with more fuel. -/
theorem State.deadlockLoop_more {function : BlockCall} {cp : Slot} {fuel : Nat}
    {srcDst : Int} {groupSize n : Nat}
    (h : s.deadlockLoop function cp fuel srcDst groupSize = .ok n) :
    s.deadlockLoop function cp (fuel + 1) srcDst groupSize = .ok n := by
  induction fuel generalizing srcDst groupSize with
  | zero =>
    rw [deadlockLoop] at h
    split at h
    · rename_i hany
      rw [hany, deadlockLoop_any]
      exact h
    · simp at h
  | succ fuel ih =>
    rw [deadlockLoop] at h ⊢
    split_ifs at h with hany
    · rw [if_pos hany]
      exact h
    · rw [if_neg hany]
      cases haddr : procAddr srcDst with
      | none =>
        rw [haddr] at h
        simp at h
      | some xp =>
        rw [haddr] at h
        dsimp only at h ⊢
        rcases hdep : s.dependency xp with herr | _ | next
        · rw [hdep] at h
          simp at h
        · rw [hdep] at h
          exact h
        rw [hdep] at h
        dsimp only at h ⊢
        split at h
        · rename_i hcp
          rw [if_pos hcp]
          exact h
        · rename_i hcp
          rw [if_neg hcp]
          exact ih h

theorem MsgInv.deadlockExact (h : MsgInv True s) : s.DeadlockExact := by
  have hsrc := h.sources trivial
  have hacyclic := h.acyclic trivial
  have hwaits := h.ipc.waitsFor_eq
  have hnr : nrSlots - 1 + 1 = nrSlots := rfl
  refine ⟨?_, ?_, ?_, ?_⟩
  · rw [hwaits]
    exact hacyclic
  · intro function cp d hne
    obtain ⟨n, hn, _⟩ := h.ipc.deadlock_exact hsrc hacyclic hne (Nat.le_of_eq hnr.symm)
    exact ⟨n, hn, deadlockLoop_more hn⟩
  · intro function cp
    exact s.deadlockLoop_any
  intro function cp d n hne hno hn
  obtain ⟨m, hm, hiff⟩ :=
    h.ipc.deadlock_exact hsrc hacyclic hne (Nat.le_succ nrSlots)
  have hmn : m = n := Except.ok.inj (hm.symm.trans hn)
  have hacyclic' : Acyclic s.WaitsFor := hwaits ▸ hacyclic
  rw [closesCycle_iff hacyclic', hwaits, ← hmn]
  exact hiff hno

/-- In a run in which no call that may block names its caller, deadlock detection is
total and exact. -/
theorem deadlockExact_of_namesOther {s₀ s : State} (hstart : s₀.Unblocked)
    (hrun : Reaches (fun t op => MessageRun t op ∧ NamesOther t op) s₀ s) : s.DeadlockExact := by
  refine MsgInv.deadlockExact (hrun.invariant (MsgInv True) hstart.msgInv ?_)
  intro t op hinv hop
  exact hinv.op hop.1 fun _ => hop.2

/-- A receive from the process with endpoint `e`. -/
def receiveFrom (e : Int) : Trap where
  callNr := callReceive
  srcDstE := e
  mPtr := ⟨0x1000, 0x1000, some zeroMessage⟩
  env _ _ _ := .done

/-- CLOCK waits for RS, and RS waits for any message. -/
def clockWaitsOps : List Op :=
  [.dispatch clockSlot, .trap (receiveFrom 2), .dispatch rsSlot, .trap (receiveFrom endptAny)]

theorem deadlockExact_clockWaits : (runOps boot clockWaitsOps).DeadlockExact :=
  deadlockExact_of_namesOther unblocked_boot (reaches_runOps (by decide +kernel))

/-- The loop does not end at a process that waits for itself. -/
theorem State.deadlockLoop_self (function : BlockCall) {cp xp : Slot} (hne : xp ≠ cp)
    (hself : s.dependency xp = .ok (some (procNr xp))) (fuel groupSize : Nat) :
    s.deadlockLoop function cp fuel (procNr xp) groupSize = .error .hang := by
  induction fuel generalizing groupSize with
  | zero => rw [deadlockLoop, if_neg (procNr_ne_any xp)]
  | succ fuel ih =>
    rw [deadlockLoop_succ, hself]
    dsimp only
    rw [if_neg fun heq => hne (procNr_injective heq)]
    exact ih _

/-- RS asks for a message from itself. -/
def selfReceiveOps : List Op := [.dispatch rsSlot, .trap (receiveFrom 2)]

/-- Deadlock detection does not see that RS would wait for itself; afterwards RS does,
and for CLOCK, which asks for a message from RS, the loop does not end. -/
theorem deadlock_misses_self :
    Reaches MessageRun boot (runOps boot [.dispatch rsSlot]) ∧
      (runOps boot [.dispatch rsSlot]).deadlock .receive rsSlot (procNr rsSlot) = .ok 0 ∧
      (runOps boot [.dispatch rsSlot]).ClosesCycle rsSlot rsSlot ∧
      Reaches MessageRun boot (runOps boot selfReceiveOps) ∧
      (runOps boot selfReceiveOps).WaitsFor rsSlot rsSlot ∧
      ∀ fuel, (runOps boot selfReceiveOps).deadlockLoop .receive clockSlot fuel (procNr rsSlot) 1 =
        .error .hang := by
  refine ⟨reaches_runOps (by decide +kernel), by decide +kernel, ?_,
    reaches_runOps (by decide +kernel), .inl ⟨by decide +kernel, by decide +kernel⟩, ?_⟩
  · exact ⟨rsSlot, .single (.inr ⟨rfl, rfl⟩)⟩
  · intro fuel
    exact deadlockLoop_self .receive (by decide) (by decide +kernel) fuel 1

end Minix.Kernel
