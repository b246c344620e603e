/-
  Kernel/SenderQueue.lean --- the queues of blocked senders in runs.

  A process that blocks in a send joins the queue of its destination and stays there
  until its message is taken or one of the two loses its endpoint.  The results are
  stated over the history of a run: the links of the process table spell out the
  senders that the history says are waiting, and every event fits the history before
  it.
-/
import Minix.Kernel.MessageRun

set_option autoImplicit false

namespace Minix.Kernel

open Minix.Foundation Relation

variable {src dst p : Slot} {e : Event} {log : List Event} {s : State}

/-! ## Histories -/

/-- `p` blocks in a send. -/
def Event.begins (p : Slot) : Event → Bool
  | .blocked src _ => src == p
  | _ => false

/-- The message of the blocked sender `p` is taken. -/
def Event.delivers (p : Slot) : Event → Bool
  | .taken src _ _ => src == p
  | _ => false

/-- The blocked sender `p` or its destination has lost its endpoint. -/
def Event.drops (p : Slot) : Event → Bool
  | .orphaned src _ | .withdrawn src _ => src == p
  | _ => false

/-- `p` is blocked on `d` and on nobody else. -/
def BlockedOn (log : List Event) (p d : Slot) : Prop :=
  ∀ e, p ∈ pendingSenders log e ↔ e = d

/-- What a history that is in order says about `p`: it is blocked on one process and
has blocked once more than it has been released, or it is not blocked. -/
def Balanced (log : List Event) (p : Slot) : Prop :=
  (∃ d, BlockedOn log p d ∧ (pendingSenders log d).count p = 1 ∧
    log.countP (Event.begins p) =
      log.countP (Event.delivers p) + log.countP (Event.drops p) + 1) ∨
  (∀ d, p ∉ pendingSenders log d) ∧
    log.countP (Event.begins p) =
      log.countP (Event.delivers p) + log.countP (Event.drops p)

section

variable (he : e.Ends src dst) (log : List Event)
include he

theorem pendingSenders_ends (d : Slot) : pendingSenders (e :: log) d =
      if d = dst then (pendingSenders log d).erase src else pendingSenders log d := by
  rcases he with ⟨wanted, rfl⟩ | rfl | rfl <;> rfl

/-- Only the sender that an event releases is concerned by it. -/
theorem mem_pendingSenders_ends (hp : p ≠ src) (d : Slot) :
    p ∈ pendingSenders (e :: log) d ↔ p ∈ pendingSenders log d := by
  rw [pendingSenders_ends he]
  split
  · exact List.mem_erase_of_ne hp
  · rfl

theorem count_pendingSenders_ends (hp : p ≠ src) (d : Slot) :
    (pendingSenders (e :: log) d).count p = (pendingSenders log d).count p := by
  rw [pendingSenders_ends he]
  split
  · exact List.count_erase_of_ne hp
  · rfl

end

/-- An event that releases `src` from the queue of `dst`. -/
theorem Balanced.ends (h : Balanced log p)
    (he : e.Ends src dst) (hmem : src ∈ pendingSenders log dst) : Balanced (e :: log) p := by
  have hbegins : e.begins p = false := by
    rcases he with ⟨wanted, rfl⟩ | rfl | rfl <;> rfl
  by_cases hp : p = src
  · subst hp
    have hone : (if e.delivers p then 1 else 0) + (if e.drops p then 1 else 0) = 1 := by
      rcases he with ⟨wanted, rfl⟩ | rfl | rfl <;> simp [Event.delivers, Event.drops]
    rcases h with ⟨d, hon, hcount, hbal⟩ | ⟨hnot, _⟩
    · have hd : dst = d := (hon dst).mp hmem
      subst hd
      refine .inr ⟨?_, ?_⟩
      · intro d
        rw [pendingSenders_ends he]
        split_ifs with hd
        · subst hd
          rw [← List.count_eq_zero, List.count_erase_self, hcount]
        · exact fun hin => hd ((hon d).mp hin)
      · simp only [List.countP_cons, hbegins]
        simp only [Bool.false_eq_true, if_false]
        omega
    · exact absurd hmem (hnot dst)
  · have hnone : e.delivers p = false ∧ e.drops p = false := by
      rcases he with ⟨wanted, rfl⟩ | rfl | rfl <;>
        simp [Event.delivers, Event.drops, Ne.symm hp]
    rcases h with ⟨d, hon, hcount, hbal⟩ | ⟨hnot, hbal⟩
    · refine .inl ⟨d, fun e' => ?_, ?_, ?_⟩
      · rw [mem_pendingSenders_ends he log hp]
        exact hon e'
      · rw [count_pendingSenders_ends he log hp]
        exact hcount
      · simpa [List.countP_cons, hbegins, hnone.1, hnone.2] using hbal
    · refine .inr ⟨fun d => ?_, ?_⟩
      · rw [mem_pendingSenders_ends he log hp]
        exact hnot d
      · simpa [List.countP_cons, hbegins, hnone.1, hnone.2] using hbal

theorem mem_pendingSenders_blocked {d : Slot} : p ∈ pendingSenders (.blocked src dst :: log) d ↔
      p ∈ pendingSenders log d ∨ d = dst ∧ p = src := by
  rw [State.pendingSenders_blocked]
  split_ifs with hd
  · simp [hd]
  · simp [hd]

/-- `src` joins the queue of `dst`. -/
theorem Balanced.blocked (h : Balanced log p)
    (hnew : ∀ d, src ∉ pendingSenders log d) : Balanced (.blocked src dst :: log) p := by
  by_cases hp : p = src
  · subst hp
    rcases h with ⟨d, hon, _, _⟩ | ⟨hnot, hbal⟩
    · exact absurd ((hon d).mpr rfl) (hnew d)
    refine .inl ⟨dst, fun e => ?_, ?_, ?_⟩
    · rw [mem_pendingSenders_blocked]
      simp [hnot e]
    · rw [State.pendingSenders_blocked, if_pos rfl, List.count_append,
        List.count_eq_zero.mpr (hnot dst)]
      simp
    · simpa [List.countP_cons, Event.begins, Event.delivers, Event.drops] using hbal
  · rcases h with ⟨d, hon, hcount, hbal⟩ | ⟨hnot, hbal⟩
    · refine .inl ⟨d, fun e => ?_, ?_, ?_⟩
      · rw [mem_pendingSenders_blocked]
        simp [hp, hon e]
      · rw [State.pendingSenders_blocked]
        split
        · rw [List.count_append, hcount, List.count_eq_zero.mpr (by simp [hp])]
        · exact hcount
      · simpa [List.countP_cons, Event.begins, Event.delivers, Event.drops, Ne.symm hp] using hbal
    · refine .inr ⟨fun d => ?_, ?_⟩
      · rw [mem_pendingSenders_blocked]
        simp [hp, hnot d]
      · simpa [List.countP_cons, Event.begins, Event.delivers, Event.drops, Ne.symm hp] using hbal

/-- In a history that is in order every blocked send ends at most once, by delivery or
by a death. -/
theorem Served.balanced (h : Served log) {p : Slot} : Balanced log p := by
  induction log with
  | nil => exact .inr ⟨fun _ => List.not_mem_nil, rfl⟩
  | cons e log ih =>
    have hbal := ih h.2
    cases e with
    | blocked src dst => exact hbal.blocked h.1
    | taken src dst wanted =>
      exact hbal.ends (.inl ⟨wanted, rfl⟩) (List.mem_of_find?_eq_some h.1)
    | orphaned src dst => exact hbal.ends (.inr (.inl rfl)) h.1.1
    | withdrawn src dst => exact hbal.ends (.inr (.inr rfl)) h.1.1
    | died _ | queued _ _ | copied _ _ | discarded _ _ =>
      simpa [Balanced, BlockedOn, pendingSenders, List.countP_cons, Event.begins,
        Event.delivers, Event.drops] using hbal

/-! ## Queues -/

/-- The queue of every live process with an endpoint holds exactly the live processes
that are blocked sending to it, once each and in the order in which they blocked.  The
history is in order: a receiver takes the first sender it asks for, and a sender is
released only when its message is taken or one of the two loses its endpoint.  No
message of a blocked sender is delivered twice. -/
structure State.QueuesExact (s : State) : Prop where
  queue : ∀ d, s.Alive d → s.rtsIsset d rtsNoEndpoint = false →
    s.callerLinks.Path (.head d) (pendingSenders s.log d) ∧ (pendingSenders s.log d).Nodup ∧
      ∀ p, p ∈ pendingSenders s.log d ↔ s.Alive p ∧ s.rtsIsset p rtsSending = true ∧
        (s.proc p).pSendtoE = (s.proc d).pEndpoint
  served : Served s.log
  blocked : ∀ p, s.rtsIsset p rtsSending = true ↔ ∃ d, p ∈ pendingSenders s.log d
  once : ∀ p, s.log.countP (Event.begins p) =
    s.log.countP (Event.delivers p) + s.log.countP (Event.drops p) +
      if s.rtsIsset p rtsSending then 1 else 0

theorem State.IpcInv.mem_pending_iff (h : s.IpcInv) {d : Slot} :
    p ∈ pendingSenders s.log d ↔ s.Alive p ∧ s.rtsIsset p rtsSending = true ∧
      (s.proc p).pSendtoE = (s.proc d).pEndpoint := by
  have hmem : p ∈ pendingSenders s.log d ↔ s.net.sending p = some d := h.wf.mem p d
  rw [hmem, s.net_sending_eq_some_iff]
  constructor
  · rintro ⟨hset, hnamed⟩
    exact ⟨h.free.alive hset (by decide), hset, ((s.named_eq_some_iff.mp hnamed).2).symm⟩
  · rintro ⟨_, hset, hto⟩
    exact ⟨hset, hto ▸ h.endpoints.named⟩

theorem State.IpcInv.sending_iff (h : s.IpcInv) :
    s.rtsIsset p rtsSending = true ↔ ∃ d, p ∈ pendingSenders s.log d := by
  constructor
  · intro hset
    obtain ⟨d, hd, _⟩ := h.target p hset
    exact ⟨d, (h.wf.mem p d).mpr (s.net_sending_eq_some_iff.mpr ⟨hset, hd⟩)⟩
  · rintro ⟨d, hmem⟩
    exact (h.mem_pending_iff.mp hmem).2.1

theorem State.IpcInv.queuesExact (h : s.IpcInv) : s.QueuesExact where
  queue d halive hend := ⟨h.path d halive hend, h.wf.nodup d, fun _ => h.mem_pending_iff⟩
  served := h.served
  blocked _ := h.sending_iff
  once p := by
    rcases h.served.balanced with ⟨d, hon, _, hbal⟩ | ⟨hnot, hbal⟩
    · have hset := h.sending_iff.mpr ⟨d, (hon d).mpr rfl⟩
      rw [if_pos hset]
      exact hbal
    · have hclear : ¬ s.rtsIsset p rtsSending = true := by
        intro hset
        obtain ⟨d, hd⟩ := h.sending_iff.mp hset
        exact hnot d hd
      rw [if_neg hclear]
      exact hbal

/-- In every run from a state with empty queues, the queues are exact and senders are
served in order. -/
theorem senderQueues_exact {s₀ s : State} (hstart : s₀.EmptyQueues)
    (hrun : Reaches MessageRun s₀ s) : s.QueuesExact := by
  have hstart' : MsgInv False s₀ := ⟨hstart.ipcInv, hstart.attended, False.elim, False.elim⟩
  have hinv : MsgInv False s := hrun.invariant (MsgInv False) hstart' fun t op h hop =>
    h.op hop False.elim
  exact hinv.ipc.queuesExact

/-- A request to the process with endpoint `e`. -/
def sendrecTo (e : Int) : Trap where
  callNr := callSendrec
  srcDstE := e
  mPtr := ⟨0x1000, 0x1000, some zeroMessage⟩
  env _ _ _ := .done

/-- RS asks SYSTEM for something, which takes the message when it looks for work. -/
def requestOps : List Op :=
  [.dispatch rsSlot, .trap (sendrecTo (-2)), .dispatch systemSlot, .trap (receiveFrom endptAny)]

theorem senderQueues_exact_request : (runOps boot requestOps).QueuesExact ∧
    (runOps boot requestOps).log.countP (Event.delivers rsSlot) = 1 :=
  ⟨senderQueues_exact State.unblocked_boot.toEmptyQueues (reaches_runOps (by decide +kernel)),
    by decide +kernel⟩

end Minix.Kernel
