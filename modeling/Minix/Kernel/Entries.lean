/-
  Kernel/Entries.lean --- properties of single entries of the process table.

  The scheduler changes an entry in few ways: it links it, changes its flags, gives it a
  quantum and a place (`sched`), and raises it or refills its quantum (`balance_queues`).
  A property that these changes keep holds of all entries whatever is queued, unqueued and
  balanced.
-/
import Minix.Kernel.Rules

set_option autoImplicit false

namespace Minix.Kernel

open Minix.Foundation

/-- A property of entries that the scheduler keeps. -/
structure Proc.Steady (P : Proc → Prop) : Prop where
  unlinked : ∀ p : Proc, P p.unlinked = P p
  sched : ∀ p, P p → P p.sched
  flags : ∀ p f, (isSet p.pRtsFlags rtsSlotFree = true → isSet f rtsSlotFree = true) → P p →
    P (p.setRts f)
  raise : ∀ p, p.pMaxPriority < p.pPriority → P p → P { p with pPriority := p.pPriority - 1 }
  refill : ∀ p, P p → P { p with pTicksLeft := p.pQuantumSize }

/-- All entries have the property, apart from those in `off`, which are just being
changed. -/
def State.Entries (P : Proc → Prop) (off : Slot → Prop) (s : State) : Prop :=
  ∀ i, ¬ off i → P (s.proc i)

/-- No process is being moved. -/
abbrev nobody : Slot → Prop := fun _ => False

namespace State.Entries

variable {P : Proc → Prop} {off : Slot → Prop} {s s' : State} {rp : Slot} {f : BitVec 16}

theorem mono (h : s.Entries P nobody) : s.Entries P off := fun i _ => h i id

/-- The entry has been changed. -/
theorem close (h : s.Entries P fun i => i = rp) (hrp : P (s.proc rp)) : s.Entries P nobody := by
  intro i _
  by_cases heq : i = rp
  · rw [heq]
    exact hrp
  · exact h i heq

theorem modProc (h : s.Entries P off) {f : Proc → Proc} (hf : ¬ off rp → P (f (s.proc rp))) :
    (s.modProc rp f).Entries P off := by
  intro i hi
  rw [modProc_proc]
  split_ifs with heq
  · subst heq
    exact hf hi
  · exact h i hi

variable (hP : Proc.Steady P)

include hP

variable (h : s.Entries P off)
include h

theorem unlinked (hs : s'.unlinked = s.unlinked) : s'.Entries P off := by
  intro i hi
  rw [frame_congr (fun t => P (t.proc i)) hs (funext fun t => hP.unlinked (t.proc i))]
  exact h i hi

theorem setRts {g : Proc → BitVec 16}
    (hg : isSet (s.proc rp).pRtsFlags rtsSlotFree = true → isSet (g (s.proc rp)) rtsSlotFree = true) :
    (s.modProc rp fun p => p.setRts (g p)).Entries P off :=
  h.modProc fun hoff => hP.flags _ _ hg (h rp hoff)

theorem rtsSet (rp : Slot) (f : BitVec 16) : (s.rtsSet rp f).Entries P off :=
  unlinked hP (h.setRts hP fun hfree => isSet_or_of_isSet _ hfree) (s.unlinked_rtsSet rp f)

theorem enqueue {rp : Slot} : (s.enqueue rp).Entries P off := by
  have hsched : (s.modProc rp Proc.sched).Entries P off :=
    h.modProc fun hoff => hP.sched _ (h rp hoff)
  refine unlinked hP ?_ (s.unlinked_enqueue rp)
  unfold requeued
  dsimp only
  split
  · exact hsched.setRts hP fun hfree => isSet_or_of_isSet _ hfree
  · exact hsched

theorem clear (rp : Slot) (hd : rtsSlotFree &&& f = 0#16) :
    (s.modProc rp fun p => p.setRts (clearBits p.pRtsFlags f)).Entries P off :=
  h.setRts hP fun hfree => (isSet_clearBits_of_disjoint hd).trans hfree

theorem rtsUnset (rp : Slot) (hd : rtsSlotFree &&& f = 0#16) : (s.rtsUnset rp f).Entries P off := by
  have hclear := h.clear hP rp hd
  unfold State.rtsUnset
  dsimp only
  split
  · exact hclear.enqueue hP
  · exact hclear

theorem requeueCurrent : s.requeueCurrent.Entries P off := by
  have hclear := h.clear hP s.procPtr (f := rtsPreempted) (by decide)
  exact requeueCurrent_rule (P := Entries P off) (fun _ => h)
    (fun _ _ => hclear.unlinked hP unlinked_enqueueHead) (fun _ _ => hclear)
    fun t ht _ => ht.rtsUnset hP _ (by decide)

theorem balanceProc {rp : Slot} : (s.balanceProc rp).Entries P off := by
  unfold State.balanceProc
  split
  · exact h
  split
  · rename_i hlower
    have hs1 : (if s.procIsRunnable rp then s.dequeue rp else s).unlinked = s.unlinked := by
      split
      · exact unlinked_dequeue
      · rfl
    dsimp only
    set s1 := if s.procIsRunnable rp then s.dequeue rp else s
    have hmax := frame_congr (fun t => (t.proc rp).pMaxPriority < (t.proc rp).pPriority) hs1 rfl
    have hs2 : (s1.modProc rp fun p => { p with pPriority := p.pPriority - 1 }).Entries P off :=
      modProc (h.unlinked hP hs1) fun hoff =>
        hP.raise _ (hmax.mpr hlower) (h.unlinked hP hs1 rp hoff)
    split
    · exact hs2.enqueue hP
    · exact hs2
  · exact h.modProc fun hoff => hP.refill _ (h rp hoff)

end State.Entries

end Minix.Kernel
