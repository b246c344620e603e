/-
  Foundation/Rendezvous.lean --- unbuffered message passing between processes.

  A process that sends to one that is not waiting for it blocks and joins the queue
  of its destination; a process that receives while no sender it accepts is queued
  blocks as well.  A process may be blocked in both ways at once, sending a request
  and receiving the reply.

  `Net` is the blocked part of such a system, `Net.Step` what can happen to it.  The
  guards of the steps are the tests that an implementation has to make.  A careful
  implementation also refuses to block a process if that closes a cycle.

  `Net.Wf` collects what the guards are for: the queues hold exactly the blocked
  senders, once each, and no process waits for a message that is there.
-/
import Mathlib.Data.List.Nodup
import Mathlib.Logic.Function.Basic
import Minix.Foundation.WaitGraph

set_option autoImplicit false

namespace Minix.Foundation

open Relation Function

/-- The blocked processes of a system. -/
structure Net (P : Type) where
  /-- The destination of a blocked sender. -/
  sending : P → Option P
  /-- The source of a blocked receiver; `some none` is any source. -/
  receiving : P → Option (Option P)
  /-- The senders that are blocked on a destination, in order. -/
  queue : P → List P

namespace Net

variable {P : Type} [DecidableEq P]

/-- A receive from `x` takes a message from `p`. -/
def accepts (x : Option P) (p : P) : Bool := x.all (· == p)

omit [DecidableEq P] in
/-- `p` waits for `q` in particular. -/
def Waits (n : Net P) (p q : P) : Prop :=
  n.sending p = some q ∨ n.receiving p = some (some q)

/-- `d` waits for a message and would take one from `p`. -/
def WillReceive (n : Net P) (d p : P) : Prop :=
  n.sending d = none ∧ ∃ x, n.receiving d = some x ∧ accepts x p = true

/-! ## Steps -/

/-- A receive of `p` ends. -/
def unblock (n : Net P) (p : P) : Net P :=
  { n with receiving := update n.receiving p none }

/-- `p` blocks in a send to `d`. -/
def blockSend (n : Net P) (p d : P) : Net P :=
  { n with
    sending := update n.sending p (some d)
    queue := update n.queue d (n.queue d ++ [p]) }

/-- `p` blocks in a receive from `x`. -/
def blockRecv (n : Net P) (p : P) (x : Option P) : Net P :=
  { n with receiving := update n.receiving p (some x) }

/-- `d` takes the message of the blocked sender `p`. -/
def take (n : Net P) (p d : P) : Net P :=
  { n with
    sending := update n.sending p none
    queue := update n.queue d ((n.queue d).erase p) }

/-- `p` gives up: it waits for nobody. -/
def quit (n : Net P) (p : P) : Net P where
  sending := update n.sending p none
  receiving := update n.receiving p none
  queue d := (n.queue d).erase p

/-- What can happen to a system; a careful one closes no cycles. -/
inductive Step (careful : Prop) (n : Net P) : Net P → Prop
  | unblock (p : P) : Step careful n (n.unblock p)
  | blockSend {p d : P} (hsend : n.sending p = none) (hrecv : n.receiving p = none)
      (hwill : ¬ n.WillReceive d p) (hsafe : careful → ¬ ReflTransGen n.Waits d p) :
      Step careful n (n.blockSend p d)
  | blockRecv {p : P} {x : Option P} (hrecv : n.receiving p = none)
      (hsend : n.sending p = x ∧ x ≠ none ∨
        n.sending p = none ∧ ∀ q ∈ n.queue p, accepts x q = false)
      (hsafe : careful → n.sending p = none → ∀ d, x = some d → ¬ ReflTransGen n.Waits d p) :
      Step careful n (n.blockRecv p x)
  | take {p d : P} (hsend : n.sending d = none) (hmem : p ∈ n.queue d) :
      Step careful n (n.take p d)
  | quit (p : P) : Step careful n (n.quit p)

/-- A careful step is a step. -/
theorem Step.imp {careful careful' : Prop} {n n' : Net P} (h : Step careful n n')
    (himp : careful' → careful) : Step careful' n n' := by
  cases h with
  | unblock p => exact .unblock p
  | blockSend hsend hrecv hwill hsafe =>
    exact .blockSend hsend hrecv hwill fun hc => hsafe (himp hc)
  | blockRecv hrecv hsend hsafe => exact .blockRecv hrecv hsend fun hc => hsafe (himp hc)
  | take hsend hmem => exact .take hsend hmem
  | quit p => exact .quit p

/-! ## Well-formed systems -/

/-- The queues hold the blocked senders, and nobody waits for a message that is
there. -/
structure Wf (n : Net P) : Prop where
  nodup : ∀ d, (n.queue d).Nodup
  mem : ∀ p d, p ∈ n.queue d ↔ n.sending p = some d
  /-- A process that is blocked twice waits for one process. -/
  both : ∀ {p d x}, n.sending p = some d → n.receiving p = some x → x = some d
  /-- A receiver that can be woken accepts no queued sender. -/
  missed : ∀ {d x}, n.receiving d = some x → n.sending d = none →
    ∀ p ∈ n.queue d, accepts x p = false

variable {n n' : Net P}

theorem Wf.unblock (h : n.Wf) {p : P} : (n.unblock p).Wf where
  nodup := h.nodup
  mem := h.mem
  both := by
    intro q d x hsend hrecv
    simp only [Net.unblock, update_apply] at hrecv
    split at hrecv
    · simp at hrecv
    · exact h.both hsend hrecv
  missed := by
    intro d x hrecv
    simp only [Net.unblock, update_apply] at hrecv
    split at hrecv
    · simp at hrecv
    · exact h.missed hrecv

theorem Wf.blockSend (h : n.Wf) {p d : P} (hsend : n.sending p = none)
    (hrecv : n.receiving p = none) (hwill : ¬ n.WillReceive d p) : (n.blockSend p d).Wf where
  nodup := by
    intro e
    simp only [Net.blockSend, update_apply]
    split
    · have hp : p ∉ n.queue d := by
        rw [h.mem, hsend]
        simp
      exact List.nodup_append.mpr ⟨h.nodup d, List.nodup_singleton p, by
        intro a ha b hb
        rw [List.mem_singleton.mp hb]
        rintro rfl
        exact hp ha⟩
    · exact h.nodup e
  mem := by
    intro q e
    have hq := h.mem q
    simp only [Net.blockSend, update_apply]
    split <;> split
    · simp_all
    · rename_i he hqp
      simp [hq, hqp, he]
    · rename_i he hqp
      subst hqp
      simp [hq, hsend, Ne.symm he]
    · exact hq e
  both := by
    intro q e x hq hx
    simp only [Net.blockSend, update_apply] at hq hx
    split_ifs at hq with hqp
    · rw [hqp, hrecv] at hx
      simp at hx
    · exact h.both hq hx
  missed := by
    intro e x hx he q hq
    simp only [Net.blockSend, update_apply] at hx he hq
    split at he
    · simp at he
    split_ifs at hq with hed
    · subst hed
      rcases List.mem_append.mp hq with hold | hnew
      · exact h.missed hx he q hold
      · rw [List.mem_singleton.mp hnew]
        by_contra hacc
        exact hwill ⟨he, x, hx, by simpa using hacc⟩
    · exact h.missed hx he q hq

theorem Wf.blockRecv (h : n.Wf) {p : P} {x : Option P}
    (hsend : n.sending p = x ∧ x ≠ none ∨
      n.sending p = none ∧ ∀ q ∈ n.queue p, accepts x q = false) : (n.blockRecv p x).Wf where
  nodup := h.nodup
  mem := h.mem
  both := by
    intro q d y hq hy
    simp only [Net.blockRecv, update_apply] at hq hy
    split_ifs at hy with hqp
    · cases hy
      rw [hqp] at hq
      rcases hsend with ⟨hx, _⟩ | ⟨hnone, _⟩
      · exact hx.symm.trans hq
      · exact nomatch hq.symm.trans hnone
    · exact h.both hq hy
  missed := by
    intro d y hy hd
    simp only [Net.blockRecv, update_apply] at hy hd ⊢
    split_ifs at hy with hdp
    · cases hy
      subst hdp
      rcases hsend with ⟨hx, hne⟩ | ⟨_, hnone⟩
      · exact absurd (hx.symm.trans hd) hne
      · exact hnone
    · exact h.missed hy hd

theorem Wf.take (h : n.Wf) {p d : P} (hsend : n.sending d = none) (hmem : p ∈ n.queue d) :
    (n.take p d).Wf where
  nodup := by
    intro e
    simp only [Net.take, update_apply]
    split
    · exact (h.nodup d).erase p
    · exact h.nodup e
  mem := by
    intro q e
    have hp := (h.mem p d).mp hmem
    simp only [Net.take, update_apply]
    split <;> split
    · rename_i hqp
      simp [hqp, (h.nodup d).mem_erase_iff]
    · rename_i he hqp
      rw [(h.nodup d).mem_erase_iff, h.mem, he]
      simp [hqp]
    · rename_i he hqp
      simp [hqp, h.mem, hp, Ne.symm he]
    · exact h.mem q e
  both := by
    intro q e x hq hx
    simp only [Net.take, update_apply] at hq hx
    split at hq
    · simp at hq
    · exact h.both hq hx
  missed := by
    intro e x hx he q hq
    simp only [Net.take, update_apply] at hx he hq
    split at he
    · -- the released sender waits for `d` alone, and `d` does not send
      rename_i hep
      subst hep
      have hsent := (h.mem e d).mp hmem
      rw [h.both hsent hx]
      have hqe : n.sending q = some e := by
        split_ifs at hq with hed
        · exact (h.mem q e).mp (hed ▸ List.mem_of_mem_erase hq)
        · exact (h.mem q e).mp hq
      have hne : d ≠ q := by
        rintro rfl
        exact nomatch hsend.symm.trans hqe
      simp [accepts, hne]
    · refine h.missed hx he q ?_
      split_ifs at hq with hed
      · exact hed ▸ List.mem_of_mem_erase hq
      · exact hq

theorem Wf.quit (h : n.Wf) {p : P} : (n.quit p).Wf where
  nodup d := (h.nodup d).erase p
  mem := by
    intro q d
    simp only [Net.quit, update_apply]
    rw [(h.nodup d).mem_erase_iff, h.mem]
    split_ifs with hqp
    · simp [hqp]
    · simp [hqp]
  both := by
    intro q d x hq hx
    simp only [Net.quit, update_apply] at hq hx
    split at hq
    · simp at hq
    · rename_i hqp
      rw [if_neg hqp] at hx
      exact h.both hq hx
  missed := by
    intro d x hx hd q hq
    simp only [Net.quit, update_apply] at hx hd hq
    split at hx
    · simp at hx
    · rename_i hdp
      rw [if_neg hdp] at hd
      exact h.missed hx hd q (List.mem_of_mem_erase hq)

/-- The guards of the steps keep a system well formed. -/
theorem Wf.step {careful : Prop} (h : n.Wf) (hstep : Step careful n n') : n'.Wf := by
  cases hstep with
  | unblock p => exact h.unblock
  | blockSend hsend hrecv hwill _ => exact h.blockSend hsend hrecv hwill
  | blockRecv _ hsend _ => exact h.blockRecv hsend
  | take hsend hmem => exact h.take hsend hmem
  | quit p => exact h.quit

/-! ## Careful systems -/

theorem waits_unblock {p q e : P} (h : (n.unblock e).Waits p q) : n.Waits p q := by
  rcases h with h | h
  · exact .inl h
  · simp only [unblock, update_apply] at h
    split at h
    · simp at h
    · exact .inr h

theorem waits_take {p q e d : P} (h : (n.take e d).Waits p q) : n.Waits p q := by
  rcases h with h | h
  · simp only [take, update_apply] at h
    split at h
    · simp at h
    · exact .inl h
  · exact .inr h

theorem waits_quit {p q e : P} (h : (n.quit e).Waits p q) : n.Waits p q := by
  rcases h with h | h
  · simp only [quit, update_apply] at h
    split at h
    · simp at h
    · exact .inl h
  · simp only [quit, update_apply] at h
    split at h
    · simp at h
    · exact .inr h

theorem waits_blockSend {p q e d : P} (h : (n.blockSend e d).Waits p q) :
    n.Waits p q ∨ p = e ∧ q = d := by
  rcases h with h | h
  · simp only [blockSend, update_apply] at h
    split_ifs at h with hpe
    · exact .inr ⟨hpe, (Option.some.inj h).symm⟩
    · exact .inl (.inl h)
  · exact .inl (.inr h)

theorem waits_blockRecv {p q e : P} {x : Option P} (h : (n.blockRecv e x).Waits p q) :
    n.Waits p q ∨ p = e ∧ x = some q := by
  rcases h with h | h
  · exact .inl (.inl h)
  · simp only [blockRecv, update_apply] at h
    split_ifs at h with hpe
    · exact .inr ⟨hpe, Option.some.inj h⟩
    · exact .inl (.inr h)

/-- A careful system never waits in a cycle. -/
theorem acyclic_step (h : Acyclic n.Waits) (hstep : Step True n n') : Acyclic n'.Waits := by
  cases hstep with
  | unblock p => exact h.mono fun _ _ => waits_unblock
  | blockSend _ _ _ hsafe => exact h.insert (hsafe trivial) fun _ _ => waits_blockSend
  | @blockRecv p x _ hsend hsafe =>
    cases x with
    | none =>
      refine h.mono fun a b hab => ?_
      rcases waits_blockRecv hab with hold | ⟨_, hx⟩
      · exact hold
      · simp at hx
    | some d =>
      rcases hsend with ⟨hsent, _⟩ | ⟨hnone, _⟩
      · -- the process waits for `d` already
        refine h.mono fun a b hab => ?_
        rcases waits_blockRecv hab with hold | ⟨rfl, hx⟩
        · exact hold
        · exact .inl (hsent.trans hx)
      · refine h.insert (hsafe trivial hnone d rfl) fun a b hab => ?_
        rcases waits_blockRecv hab with hold | ⟨hp, hx⟩
        · exact .inl hold
        · exact .inr ⟨hp, (Option.some.inj hx).symm⟩
  | take _ _ => exact h.mono fun _ _ => waits_take
  | quit p => exact h.mono fun _ _ => waits_quit

/-- A process waits for one process at most. -/
theorem Wf.waits_unique (h : n.Wf) {p q q' : P} (hq : n.Waits p q) (hq' : n.Waits p q') :
    q = q' := by
  rcases hq with hq | hq <;> rcases hq' with hq' | hq'
  · exact Option.some.inj (hq.symm.trans hq')
  · exact (Option.some.inj (h.both hq hq')).symm
  · exact Option.some.inj (h.both hq' hq)
  · exact Option.some.inj (Option.some.inj (hq.symm.trans hq'))

end Net

end Minix.Foundation
