/-
  Kernel/Sched.lean --- the ready queues of `proc.c` and the macros of `proc.h`
  that keep them in step with `p_rts_flags`.

  There are sixteen ready queues, one per priority.  Each is a list through
  `p_nextready` with a head and a tail pointer.  A process is on the queue of its
  `p_priority` while it is runnable, that is, while its flag word is zero; the
  macros `RTS_SET` and `RTS_UNSET` change the word and queue or unqueue the
  process when the word becomes or ceases to be zero.

  Queueing a process of a higher priority than the current one preempts the
  current one: `enqueue` then sets `RTS_PREEMPTED` on it, which unqueues it.

  The `LOCK` variants of the macros differ only in that they disable interrupts
  around the same statements; a step of the model is not interrupted, so one
  definition serves both.
-/
import Minix.Kernel.Types
import Minix.Foundation.IntrusiveList

set_option autoImplicit false

namespace Minix.Kernel

open Minix.Foundation

namespace State

/-! ## The queues as linked lists -/

/-- The ready queues: heads by priority, links through `p_nextready`. -/
def readyLinks (s : State) : Links Int Slot where
  head := s.rdyHead
  next rp := (s.proc rp).pNextready

/-- Write to a link of a ready queue. -/
def setReadyLink (s : State) : Ref Int Slot → Option Slot → State
  | .head q, v => { s with rdyHead := Function.update s.rdyHead q v }
  | .next rp, v => s.modProc rp fun p => { p with pNextready := v }

/-- Write to a tail pointer. -/
def setRdyTail (s : State) (q : Int) (v : Option Slot) : State :=
  { s with rdyTail := Function.update s.rdyTail q v }

/-- `dequeue(rp)` -/
def dequeue (s : State) (rp : Slot) : State :=
  let q := (s.proc rp).pPriority
  match s.readyLinks.seek (fun xp => xp == rp) (nrSlots + 1) (.head q) with
  | none => s.stop .hang
  | some xpp =>
      match s.readyLinks.get xpp with
      | none => s
      | some _ =>
          let s1 := s.setReadyLink xpp (s.proc rp).pNextready
          -- the previous node on the walk owns the link that was just rewritten
          if s1.rdyTail q = some rp then s1.setRdyTail q xpp.owner else s1

/-- `RTS_SET(rp, f)` and `RTS_LOCK_SET(rp, f)` -/
def rtsSet (s : State) (rp : Slot) (f : BitVec 16) : State :=
  let s1 := if s.procIsRunnable rp then s.dequeue rp else s
  s1.modProc rp fun p => p.setRts (p.pRtsFlags ||| f)

/-- `RTS_LOCK_SETFLAGS(rp, f)` -/
def rtsSetflags (s : State) (rp : Slot) (f : BitVec 16) : State :=
  let s1 := if s.procIsRunnable rp ∧ f ≠ 0#16 then s.dequeue rp else s
  s1.modProc rp fun p => p.setRts f

end State

/-- The effect of `sched(rp, ..)` on the entry of `rp`: a process without ticks
gets a new quantum and the next lower queue; a process with a deadline always
goes to queue 7. -/
def Proc.sched (p : Proc) : Proc :=
  { p with
    pTicksLeft := if 0 < p.pTicksLeft then p.pTicksLeft else p.pQuantumSize
    pPriority :=
      if 0 < p.pDeadline.tmrExpTime then 7
      else if 0 < p.pTicksLeft then p.pPriority
      else if p.pPriority < 15 then p.pPriority + 1
      else p.pPriority }

namespace State

/-- The part of `enqueue` that links `rp` into queue `q`. -/
def linkReady (s : State) (rp : Slot) (q : Int) (front : Bool) : State :=
  match s.rdyHead q with
  | none =>
      ((s.setReadyLink (.head q) (some rp)).setRdyTail q (some rp)).setReadyLink (.next rp) none
  | some head =>
      if front then
        (s.setReadyLink (.next rp) (some head)).setReadyLink (.head q) (some rp)
      else
        match s.rdyTail q with
        | none => s.stop .wild
        | some tail =>
            ((s.setReadyLink (.next tail) (some rp)).setRdyTail q (some rp)).setReadyLink
              (.next rp) none

/-- The test at the end of `enqueue`: the current process is preemptible and runs
at a lower priority than the queued process. -/
def preempts (s : State) (rp : Slot) : Bool :=
  (s.proc rp).pPriority < (s.proc s.procPtr).pPriority &&
    isSet (s.privOf s.procPtr).sFlags preemptible

/-- `enqueue(rp)` -/
def enqueue (s : State) (rp : Slot) : State :=
  let front := decide (0 < (s.proc rp).pTicksLeft)
  let s1 := s.modProc rp Proc.sched
  let s2 := s1.linkReady rp (s1.proc rp).pPriority front
  if s2.preempts rp then s2.rtsSet s2.procPtr rtsPreempted else s2

/-- `enqueue_head(rp)` -/
def enqueueHead (s : State) (rp : Slot) : State :=
  let q := (s.proc rp).pPriority
  match s.rdyHead q with
  | none =>
      -- the last assignment stands outside the `else` in the source and repeats the first
      (((s.setReadyLink (.head q) (some rp)).setRdyTail q (some rp)).setReadyLink
        (.next rp) none).setReadyLink (.head q) (some rp)
  | some head => (s.setReadyLink (.next rp) (some head)).setReadyLink (.head q) (some rp)

/-- `RTS_UNSET(rp, f)` and `RTS_LOCK_UNSET(rp, f)` -/
def rtsUnset (s : State) (rp : Slot) (f : BitVec 16) : State :=
  let s1 := s.modProc rp fun p => p.setRts (clearBits p.pRtsFlags f)
  if !s.procIsRunnable rp && s1.procIsRunnable rp then s1.enqueue rp else s1

/-! ## Choosing a process -/

/-- `if (priv(rp)->s_flags & BILLABLE) bill_ptr = rp` -/
def bill (s : State) (rp : Slot) : State :=
  if isSet (s.privOf rp).sFlags billable then { s with billPtr := rp } else s

/-- The processes on a ready queue in list order; `none` if the list does not end. -/
def queueNodes (s : State) (q : Int) : Option (List Slot) :=
  s.readyLinks.nodes (nrSlots + 1) (.head q)

/-- The first non-empty queue of a range and its head. -/
def firstReady (s : State) : List Int → Option (Int × Slot)
  | [] => none
  | q :: qs =>
      match s.rdyHead q with
      | none => s.firstReady qs
      | some rp => some (q, rp)

/-- The tickets on one queue, added to `total`: the counting loop of the lottery. -/
def countTickets (s : State) (q : Int) (total : Int) : List Slot → Int
  | [] => total
  | rp :: rps =>
      s.countTickets q (if s.procIsRunnable rp then total + (16 - q) else total) rps

/-- Either the process that holds the drawn ticket or what is left of the draw:
the spending loop of the lottery on one queue. -/
def spendTickets (s : State) (q : Int) (winner : Int) : List Slot → Slot ⊕ Int
  | [] => .inr winner
  | rp :: rps =>
      if s.procIsRunnable rp then
        if winner - (16 - q) < 0 then .inl rp else s.spendTickets q (winner - (16 - q)) rps
      else s.spendTickets q winner rps

/-- The counting loop over all queues of the lottery. -/
def totalTickets (s : State) (total : Int) : List (Int × List Slot) → Int
  | [] => total
  | (q, rps) :: rest => s.totalTickets (s.countTickets q total rps) rest

/-- The spending loop over all queues of the lottery. -/
def drawWinner (s : State) (winner : Int) : List (Int × List Slot) → Option Slot
  | [] => none
  | (q, rps) :: rest =>
      match s.spendTickets q winner rps with
      | .inl rp => some rp
      | .inr winner => s.drawWinner winner rest

/-- One step of the scan of queue 7: `rp` is the choice so far. -/
def earlier (s : State) (rp tmp : Slot) : Slot :=
  if 0 < (s.proc tmp).pDeadline.tmrExpTime ∧
      ((s.proc rp).pDeadline.tmrExpTime = 0 ∨
        0 < (s.proc rp).pDeadline.tmrExpTime ∧
          (s.proc tmp).pDeadline.tmrExpTime < (s.proc rp).pDeadline.tmrExpTime) then tmp
  else rp

/-- Queues 0 to 15, 0 to 5 and 6 to 15. -/
def allQueues : List Int := [0, 1, 2, 3, 4, 5, 6, 7, 8, 9, 10, 11, 12, 13, 14, 15]
def fixedQueues : List Int := [0, 1, 2, 3, 4, 5]
def lotteryQueues : List Int := [6, 7, 8, 9, 10, 11, 12, 13, 14, 15]

/-- The queues of the lottery with their processes. -/
def queueLists (s : State) : List Int → Option (List (Int × List Slot))
  | [] => some []
  | q :: qs =>
      match s.queueNodes q, s.queueLists qs with
      | some rps, some rest => some ((q, rps) :: rest)
      | _, _ => none

/-- `pick_proc()` with `sched_type == 0` -/
def pickRoundRobin (s : State) : Option Slot × State :=
  match s.firstReady allQueues with
  | none => (none, s)
  | some (_, rp) => (some rp, s.bill rp)

/-- `pick_proc()` with `sched_type == 1`; `rand` is what `rand()` returns. -/
def pickLottery (s : State) (rand : Nat) : Option Slot × State :=
  match s.firstReady fixedQueues with
  | some (_, rp) => (some rp, s.bill rp)
  | none =>
      match s.queueLists lotteryQueues with
      | none => (none, s.stop .hang)
      | some lists =>
          let totalTickets := s.totalTickets 0 lists
          if 0 < totalTickets then
            match s.drawWinner ((rand : Int) % totalTickets) lists with
            | some rp => (some rp, s.bill rp)
            | none => (none, s)
          else (none, s)

/-- `pick_proc()` with `sched_type == 2` -/
def pickEdf (s : State) : Option Slot × State :=
  match s.firstReady allQueues with
  | none => (none, s)
  | some (q, rp) =>
      if q = 7 then
        match s.queueNodes 7 with
        | none => (none, s.stop .hang)
        | some tmps =>
            let rp := tmps.foldl s.earlier rp
            (some rp, s.bill rp)
      else (some rp, s.bill rp)

/-- `pick_proc()` -/
def pickProc (s : State) (rand : Nat) : Option Slot × State :=
  match s.schedType with
  | .roundRobin => s.pickRoundRobin
  | .lottery => s.pickLottery rand
  | .edf => s.pickEdf

/-- `set_scheduler(scheduler_type)` -/
def setScheduler (s : State) (schedulerType : Int) : State :=
  if schedulerType = 1 then { s with schedType := .lottery }
  else if schedulerType = 2 then { s with schedType := .edf }
  else { s with schedType := .roundRobin }

end State

end Minix.Kernel
