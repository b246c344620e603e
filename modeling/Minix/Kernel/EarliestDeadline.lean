/-
  Kernel/EarliestDeadline.lean --- the scheduler that prefers the earliest deadline.

  With `sched_type == 2`, `pick_proc` takes the head of the first queue that is not
  empty, but on queue 7 it takes the process with the earliest deadline.  Its scan
  starts from the head of the queue and compares expiration times, where zero stands
  for no deadline; it is right as long as no time is negative.
-/
import Minix.Kernel.DeadlineQueue

set_option autoImplicit false

namespace Minix.Kernel

open Minix.Foundation Relation State List

variable {seen : List Slot} {qs : List Int} {rp : Slot} {s : State}

/-! ## The scan of queue 7 -/

section Scan

variable {α : Type} (time : α → Int)

/-- `p` is the first element of the list with the least positive time. -/
def Earliest (l : List α) (p : α) : Prop :=
  ∃ before after, l = before ++ p :: after ∧ 0 < time p ∧
    (∀ x ∈ before, 0 < time x → time p < time x) ∧ ∀ x ∈ after, 0 < time x → time p ≤ time x

/-- `p` is the first element with the least positive time, or the first element of all
if no time is positive. -/
def EarliestOrHead (l : List α) (p : α) : Prop :=
  Earliest time l p ∨ l.head? = some p ∧ ∀ x ∈ l, time x ≤ 0

variable {time}

variable {l : List α} {p : α}

theorem Earliest.le (h : Earliest time l p) {x : α} (hx : x ∈ l)
    (hpos : 0 < time x) : time p ≤ time x := by
  obtain ⟨before, after, rfl, _, hbefore, hafter⟩ := h
  rcases mem_append.mp hx with hx | hx
  · exact le_of_lt (hbefore x hx hpos)
  · rcases mem_cons.mp hx with rfl | hx
    · exact le_refl _
    · exact hafter x hx hpos

theorem Earliest.pos (h : Earliest time l p) : 0 < time p := by
  obtain ⟨_, _, _, hpos, _⟩ := h
  exact hpos

theorem EarliestOrHead.mem (h : EarliestOrHead time l p) : p ∈ l := by
  rcases h with ⟨before, after, rfl, _⟩ | ⟨hhead, _⟩
  · simp
  · exact mem_of_head? hhead

end Scan

namespace State

variable {s : State}

section

variable (hnonneg : ∀ x, 0 ≤ s.expTime x)
include hnonneg

/-- One step of the scan. -/
theorem earliestOrHead_earlier {p : Slot} (h : EarliestOrHead s.expTime seen p) (tmp : Slot) :
    EarliestOrHead s.expTime (seen ++ [tmp]) (s.earlier p tmp) := by
  unfold earlier
  rcases h with hfirst | ⟨hhead, hnone⟩
  · split
    · rename_i htake
      -- the new process is earlier than the choice so far, and so than all seen
      have hlt : s.expTime tmp < s.expTime p := by
        rcases htake.2 with hzero | hless
        · exact absurd hzero (ne_of_gt hfirst.pos)
        · exact hless.2
      refine .inl ⟨seen, [], rfl, htake.1, ?_, by simp⟩
      exact fun x hx hpos => lt_of_lt_of_le hlt (hfirst.le hx hpos)
    · rename_i hkeep
      obtain ⟨before, after, rfl, hpos, hbefore, hafter⟩ := hfirst
      refine .inl ⟨before, after ++ [tmp], by simp, hpos, hbefore, ?_⟩
      intro x hx hx'
      rcases mem_append.mp hx with hx | hx
      · exact hafter x hx hx'
      · rw [mem_singleton.mp hx] at hx' ⊢
        by_contra hlt
        exact hkeep ⟨hx', .inr ⟨hpos, lt_of_not_ge hlt⟩⟩
  · have hzero : s.expTime p = 0 :=
      le_antisymm (hnone p (mem_of_head? hhead)) (hnonneg p)
    split
    · rename_i htake
      refine .inl ⟨seen, [], rfl, htake.1, ?_, by simp⟩
      exact fun x hx hpos => absurd hpos (not_lt_of_ge (hnone x hx))
    · rename_i hkeep
      refine .inr ⟨?_, ?_⟩
      · rw [head?_append, hhead]
        rfl
      intro x hx
      rcases mem_append.mp hx with hx | hx
      · exact hnone x hx
      · rw [mem_singleton.mp hx]
        by_contra hpos
        exact hkeep ⟨lt_of_not_ge hpos, .inl hzero⟩

theorem earliestOrHead_foldl {p : Slot} (h : EarliestOrHead s.expTime seen p) {tmps : List Slot} :
    EarliestOrHead s.expTime (seen ++ tmps) (tmps.foldl s.earlier p) := by
  induction tmps generalizing seen p with
  | nil => simpa using h
  | cons tmp tmps ih =>
    have hrest := ih (earliestOrHead_earlier hnonneg h tmp)
    rwa [append_assoc, singleton_append] at hrest

/-- The scan of a queue, from its head. -/
theorem earliestOrHead_scan (head : Slot) (rest : List Slot) :
    EarliestOrHead s.expTime (head :: rest) ((head :: rest).foldl s.earlier head) := by
  have hself : s.earlier head head = head := by
    unfold earlier
    split <;> rfl
  rw [foldl_cons, hself]
  have hhead : EarliestOrHead s.expTime [head] head := by
    by_cases hpos : 0 < s.expTime head
    · exact .inl ⟨[], [], rfl, hpos, by simp, by simp⟩
    · refine .inr ⟨rfl, fun x hx => ?_⟩
      rw [mem_singleton.mp hx]
      exact le_of_not_gt hpos
  exact earliestOrHead_foldl hnonneg hhead

end

/-! ## What is picked -/

theorem firstReady_lt (hsorted : qs.Pairwise (· < ·)) {q : Int}
    (h : s.firstReady qs = some (q, rp)) : ∀ q' ∈ qs, q' < q → s.rdyHead q' = none := by
  induction qs with
  | nil => simp
  | cons q0 qs ih =>
    obtain ⟨hlt, hsorted'⟩ := pairwise_cons.mp hsorted
    rw [firstReady] at h
    intro q' hq' hless
    split at h
    · rename_i hhead
      rcases mem_cons.mp hq' with rfl | hq'
      · exact hhead
      · exact ih hsorted' h q' hq' hless
    · cases h
      rcases mem_cons.mp hq' with rfl | hq'
      · exact absurd hless (lt_irrefl _)
      · exact absurd hless (not_lt_of_gt (hlt q' hq'))

theorem firstReady_none (h : s.firstReady qs = none) : ∀ q ∈ qs, s.rdyHead q = none := by
  induction qs with
  | nil => simp
  | cons q0 qs ih =>
    rw [firstReady] at h
    split at h
    · rename_i hhead
      intro q hq
      rcases mem_cons.mp hq with rfl | hq
      · exact hhead
      · exact ih h q hq
    · simp at h

/-- What the scheduler for deadlines picks: the head of the first queue that is not
empty, and on queue 7 the process with the earliest deadline. -/
theorem pickEdf_spec {on : Slot → Prop} {Q : Int → List Slot} (hQ : ReadyRep s on Q)
    (hnonneg : ∀ x, 0 ≤ s.expTime x) :
    ((s.pickEdf).1 = none ∧ ∀ q ∈ allQueues, Q q = []) ∨
    ∃ q ∈ allQueues, ∃ rp, (s.pickEdf).1 = some rp ∧ (∀ q' ∈ allQueues, q' < q → Q q' = []) ∧
      rp ∈ Q q ∧ (q = 7 → EarliestOrHead s.expTime (Q 7) rp) ∧ (q ≠ 7 → (Q q).head? = some rp) := by
  have hempty : ∀ {q}, s.rdyHead q = none → Q q = [] := fun {q} hnone => by
    rw [rdyHead_of_path hQ.path] at hnone
    exact head?_eq_none_iff.mp hnone
  cases hfirst : s.firstReady allQueues with
  | none =>
    refine .inl ⟨?_, fun q hq => hempty (firstReady_none hfirst q hq)⟩
    simp [pickEdf, hfirst]
  | some found =>
    obtain ⟨q, head⟩ := found
    obtain ⟨hq, hhead⟩ := firstReady_mem hfirst
    have hbefore : ∀ q' ∈ allQueues, q' < q → Q q' = [] := fun q' hq' hlt =>
      hempty (firstReady_lt (by decide) hfirst q' hq' hlt)
    rw [rdyHead_of_path hQ.path] at hhead
    refine .inr ⟨q, hq, ?_⟩
    by_cases h7 : q = 7
    · subst h7
      obtain ⟨rest, hrest⟩ : ∃ rest, Q 7 = head :: rest := by
        cases hlist : Q 7 with
        | nil => simp [hlist] at hhead
        | cons x rest =>
          rw [hlist] at hhead
          cases hhead
          exact ⟨rest, rfl⟩
      have hscan := earliestOrHead_scan hnonneg head rest
      refine ⟨(head :: rest).foldl s.earlier head, ?_, hbefore, ?_, ?_, fun hne => absurd rfl hne⟩
      · simp [pickEdf, hfirst, queueNodes_of_path (hQ.path 7), hrest]
      · rw [hrest]
        exact hscan.mem
      · rw [hrest]
        exact fun _ => hscan
    · refine ⟨head, ?_, hbefore, mem_of_head? hhead, fun heq => absurd heq h7, fun _ => hhead⟩
      simp [pickEdf, hfirst, h7]

end State

/-! ## Runs in which deadlines are positive -/

/-- A run in which every deadline that is declared is a positive time. -/
def PositiveRun (s : State) (op : Op) : Prop := SystemRun s op ∧ PositiveDeadline s op

instance (s : State) (op : Op) : Decidable (PositiveRun s op) :=
  inferInstanceAs (Decidable (_ ∧ _))

theorem EdfInv.positive (h : Reachable PositiveRun s) : EdfInv False s := by
  refine EdfInv.reachable (h.mono fun t op hop => ?_)
  exact ⟨hop.1, hop.2, fun hex => absurd hex id⟩

theorem EdfInv.nonneg {strict : Prop} (h : EdfInv strict s) (rp : Slot) : 0 ≤ s.expTime rp := by
  obtain ⟨L, hL⟩ := h.timer
  exact hL.nonneg rp

/-- Every ready process with a deadline is on queue 7.  With the scheduler for deadlines,
if queues 0 to 6 are empty and queue 7 is not, the first process of queue 7 with the
earliest deadline is picked, or its head if there is no deadline; and no process of
another queue than 0 to 6 is picked without a deadline while one with a deadline is
ready. -/
def DeadlinesServed (s : State) : Prop :=
  ∃ Q, ReadyRep s (fun i => (s.proc i).pRtsFlags = 0#16) Q ∧
    (∀ rp, (s.proc rp).pRtsFlags = 0#16 → 0 < s.expTime rp → rp ∈ Q 7) ∧
    (s.schedType = .edf → ∀ rand,
      ((∀ q, 0 ≤ q → q ≤ 6 → Q q = []) → Q 7 ≠ [] →
        ∃ rp, (s.pickProc rand).1 = some rp ∧ EarliestOrHead s.expTime (Q 7) rp) ∧
      ∀ rp, (s.pickProc rand).1 = some rp → ¬ 0 < s.expTime rp →
        (∃ j, (s.proc j).pRtsFlags = 0#16 ∧ 0 < s.expTime j) →
          0 ≤ (s.proc rp).pPriority ∧ (s.proc rp).pPriority ≤ 6)

theorem deadlinesServed_of_positive {s : State} (h : Reachable PositiveRun s) :
    DeadlinesServed s := by
  have hinv := EdfInv.positive h
  obtain ⟨Q, hQ⟩ := hinv.ready.rep
  have hqueue7 : ∀ rp, (s.proc rp).pRtsFlags = 0#16 → 0 < s.expTime rp → rp ∈ Q 7 :=
    fun rp hzero hpos => (hQ.mem 7 rp).mpr ⟨hzero, hinv.deadline.settled rp id hpos (.inl hzero)⟩
  refine ⟨Q, hQ, hqueue7, fun hedf rand => ?_⟩
  have hpick : s.pickProc rand = s.pickEdf := by rw [pickProc, hedf]
  have hspec := pickEdf_spec hQ hinv.nonneg
  rw [hpick]
  refine ⟨fun hempty hne => ?_, ?_⟩
  · rcases hspec with ⟨_, hall⟩ | ⟨q, hq, rp, hrp, hbefore, hmem, h7, _⟩
    · exact absurd (hall 7 (by decide)) hne
    refine ⟨rp, hrp, h7 ?_⟩
    -- the queue is not before 7, where all queues are empty, nor after it
    have hrange := hinv.ready.priority rp
    rw [((hQ.mem q rp).mp hmem).2] at hrange
    by_contra hq7
    rcases lt_or_gt_of_ne hq7 with hlt | hgt
    · rw [hempty q hrange.1 (by omega)] at hmem
      exact absurd hmem not_mem_nil
    · exact hne (hbefore 7 (by decide) hgt)
  · rintro rp hrp hnone ⟨j, hj, hpos⟩
    have hj7 := hqueue7 j hj hpos
    rcases hspec with ⟨hnil, _⟩ | ⟨q, hq, rp', hrp', hbefore, hmem, h7, _⟩
    · rw [hnil] at hrp
      simp at hrp
    rw [hrp'] at hrp
    cases hrp
    have hrange := hinv.ready.priority rp
    rw [((hQ.mem q rp).mp hmem).2] at hrange ⊢
    refine ⟨hrange.1, ?_⟩
    by_contra hgt
    rcases eq_or_ne q 7 with rfl | hne
    · rcases h7 rfl with hfirst | ⟨_, hall⟩
      · exact hnone hfirst.pos
      · exact absurd hpos (not_lt_of_ge (hall j hj7))
    · rw [hbefore 7 (by decide) (by omega)] at hj7
      exact absurd hj7 not_mem_nil

/-- RECEIVE from ANY. -/
def receiveAny : Trap where
  callNr := callReceive
  srcDstE := endptAny
  mPtr := ⟨0x1000, 0x1000, some zeroMessage⟩
  env _ _ _ := .done

/-- An environment in which nothing is left to do before a process runs. -/
def idleEnv : SchedEnv := ⟨fun _ => 0, fun _ => true, fun _ => receiveAny⟩

/-- SYSTEM gives RS a deadline; then it and CLOCK wait for work. -/
def deadlineOps : List Op :=
  [.schedcheck idleEnv 5, .request pmSlot (.chdeadline 2 10), .trap receiveAny,
    .schedcheck idleEnv 5, .trap receiveAny]

theorem deadlinesServed_afterChdeadline :
    DeadlinesServed (runOps (bootWith 2) deadlineOps) :=
  deadlinesServed_of_positive ⟨2, reaches_runOps (by decide +kernel)⟩

/-- RS, on queue 7, declares a deadline of -1 seconds, and PM one of 10 seconds. -/
def negativeDeadlineOps : List Op :=
  [.schedcheck idleEnv 5, .rtsUnset pmSlot rtsNoPriv, .request pmSlot (.nice 2 (-2)),
    .request pmSlot (.chdeadline 0 10), .request pmSlot (.chdeadline 2 (-1)), .trap receiveAny,
    .schedcheck idleEnv 5, .trap receiveAny]

/-- A negative time is neither taken for no deadline nor for an early one: the scan stays
at a head with a negative time. -/
theorem deadlinesServed_fails_negative : ¬ ∀ s, Reachable SystemRun s → DeadlinesServed s := by
  intro hall
  obtain ⟨Q, _, _, hedf⟩ := hall (runOps (bootWith 2) negativeDeadlineOps)
    ⟨2, reaches_runOps (by decide +kernel)⟩
  have hpick := (hedf (by decide +kernel) 0).2 rsSlot (by decide +kernel) (by decide +kernel)
    ⟨pmSlot, by decide +kernel, by decide +kernel⟩
  exact absurd hpick (by decide +kernel)

/-! ## Dispatch

`schedcheck` keeps the current process as long as it can run, and `enqueue` preempts it
only for a process of a lower queue.  So the deadlines of queue 7 are compared when a
process is picked, and not when a process becomes ready. -/

/-- The deadline of `j` is pending and strictly earlier than that of `rp`, where a process
without a deadline is later than any. -/
def State.EarlierDeadline (s : State) (j rp : Slot) : Prop :=
  0 < s.expTime j ∧ (¬ 0 < s.expTime rp ∨ s.expTime j < s.expTime rp)

/-- If the current process has the priority of queue 7, no other ready process of queue 7
has an earlier deadline. -/
def State.CurrentEarliest (s : State) : Prop :=
  (s.proc s.procPtr).pPriority = 7 → ∀ j, j ≠ s.procPtr → (s.proc j).pRtsFlags = 0#16 →
    (s.proc j).pPriority = 7 → ¬ s.EarlierDeadline j s.procPtr

namespace State

/-- The state in which `schedcheck` has last picked a process; `last` is the one found so
far. -/
def lastPickLoop (env : SchedEnv) : Nat → State → Option State → Option State
  | 0, _, last => last
  | fuel + 1, s, last =>
      if s.halt ≠ none then last
      else if (s.proc s.procPtr).pMiscFlags &&& mfWork = 0#16 then last
      else
        match s.workOff (env.mapped fuel) (env.deferred fuel) with
        | (true, _) => last
        | (false, s) =>
            if s.procIsRunnable s.procPtr then lastPickLoop env fuel s last
            else
              match s.pickNew (env.rand fuel) with
              | (true, s) => lastPickLoop env fuel s (some s)
              | (false, _) => last

/-- The state in which `schedcheck` has last picked a process, if it has picked one. -/
def lastPick (s : State) (env : SchedEnv) (fuel : Nat) : Option State :=
  if s.procIsRunnable s.procPtr then lastPickLoop env fuel s none
  else
    match s.pickNew (env.rand fuel) with
    | (true, s) => lastPickLoop env fuel s (some s)
    | (false, _) => none

variable {s : State}

/-- A process that is picked from queue 7 has the earliest deadline. -/
theorem currentEarliest_pickNew (hready : ReadyInv s) (hnonneg : ∀ rp, 0 ≤ s.expTime rp)
    (hedf : s.schedType = .edf) (rand : Nat) (hpick : (s.pickNew rand).1 = true) :
    (s.pickNew rand).2.CurrentEarliest := by
  have hreq := hready.requeueCurrent
  have htimers := SameTimers.requeueCurrent s
  have hpickEdf : s.requeueCurrent.pickProc rand = s.requeueCurrent.pickEdf := by
    rw [pickProc, htimers.schedType, hedf]
  have herase := s.requeueCurrent.erase_pickProc rand
  obtain ⟨Q, hQ⟩ := hreq.rep
  have hspec := pickEdf_spec hQ (htimers.nonneg hnonneg)
  rw [← hpickEdf] at hspec
  unfold pickNew at hpick ⊢
  split
  · rename_i rp s1 hres
    rw [hres] at hspec herase
    -- picking changes nothing that the comparison looks at
    have hsame : ∀ {α : Type} (k : Proc → α), (∀ p : Proc, k p.erase = k p) → ∀ i,
        k (s1.proc i) = k (s.requeueCurrent.proc i) := fun k hk i =>
      frame_congr (fun t => k (t.proc i)) herase (funext fun t => hk (t.proc i))
    intro hrp7 j hj hjready hj7 hearlier
    simp only [EarlierDeadline, expTime] at hrp7 hj hjready hj7 hearlier
    rw [hsame Proc.pPriority fun _ => rfl] at hrp7 hj7
    rw [hsame Proc.pRtsFlags fun _ => rfl] at hjready
    rw [hsame (fun p => p.pDeadline.tmrExpTime) fun _ => rfl,
      hsame (fun p => p.pDeadline.tmrExpTime) fun _ => rfl] at hearlier
    have hjmem : j ∈ Q 7 := (hQ.mem 7 j).mpr ⟨hjready, hj7⟩
    rcases hspec with ⟨hnil, _⟩ | ⟨q, _, rp', hsome, _, hmem, h7, _⟩
    · simp at hnil
    cases hsome
    have hq : q = 7 := ((hQ.mem q rp).mp hmem).2.symm.trans hrp7
    rcases h7 hq with hfirst | ⟨_, hall⟩
    · rcases hearlier.2 with hnone | hless
      · exact hnone hfirst.pos
      · exact absurd hless (not_lt_of_ge (hfirst.le hjmem hearlier.1))
    · exact absurd hearlier.1 (not_lt_of_ge (hall j hjmem))
  · rename_i hres
    rw [hres] at hpick
    simp at hpick

/-- The process that the loop returns is the one last picked, or the one it started with
if it has picked none. -/
theorem lastPickLoop_spec {env : SchedEnv} {fuel : Nat} (hready : ReadyInv s)
    (hnonneg : ∀ rp, 0 ≤ s.expTime rp) (hedf : s.schedType = .edf)
    (hrun : s.procIsRunnable s.procPtr = true) (last : Option State)
    (hlast : ∀ t, last = some t → t.CurrentEarliest ∧ t.procPtr = s.procPtr)
    {s' : State} (hres : checkMiscFlags env fuel s = (some rp, s')) :
    (∃ t, lastPickLoop env fuel s last = some t ∧ t.procPtr = rp ∧ t.CurrentEarliest) ∨
      lastPickLoop env fuel s last = none ∧ last = none ∧ rp = s.procPtr := by
  have hstay : ∀ {q : Slot}, q = s.procPtr →
      (∃ t, last = some t ∧ t.procPtr = q ∧ t.CurrentEarliest) ∨
        last = none ∧ last = none ∧ q = s.procPtr := by
    rintro q rfl
    cases hcase : last with
    | none => exact .inr ⟨rfl, rfl, rfl⟩
    | some t => exact .inl ⟨t, rfl, (hlast t hcase).2, (hlast t hcase).1⟩
  induction fuel generalizing s last with
  | zero => simp [checkMiscFlags] at hres
  | succ fuel ih =>
    rw [checkMiscFlags] at hres
    rw [lastPickLoop]
    split at hres
    · simp at hres
    rename_i hhalt
    rw [if_neg hhalt]
    split_ifs at hres with hwork
    · rw [if_pos hwork]
      cases hres
      exact hstay rfl
    · rw [if_neg hwork]
      have hsteps := steps_workOff_any hrun (env.mapped fuel) (env.deferred fuel)
      have hready1 := hready.kernelSteps hsteps
      have htimers := SameTimers.kernelSteps hsteps
      have hptr := SchedSteps.procPtr hsteps.sched
      rcases hdone : s.workOff (env.mapped fuel) (env.deferred fuel) with ⟨done, s1⟩
      rw [hdone] at hready1 htimers hptr hres
      cases done with
      | true =>
        cases hres
        exact hstay hptr
      | false =>
        have hnonneg1 := htimers.nonneg hnonneg
        have hedf1 := htimers.schedType.trans hedf
        dsimp only at hptr hres ⊢
        by_cases hrun1 : s1.procIsRunnable s1.procPtr = true
        · rw [if_pos hrun1] at hres ⊢
          rw [← hptr]
          refine ih hready1 hnonneg1 hedf1 hrun1 last ?_ hres ?_
          · intro t ht
            rw [hptr]
            exact hlast t ht
          · intro q hq
            rw [hptr] at hq ⊢
            exact hstay hq
        · rw [if_neg hrun1] at hres ⊢
          have hpick := hready1.pickNew (env.rand fuel)
          have hnew := SameTimers.pickNew s1 (env.rand fuel)
          have hcur := currentEarliest_pickNew hready1 hnonneg1 hedf1 (env.rand fuel)
          rcases hnext : s1.pickNew (env.rand fuel) with ⟨found, s2⟩
          rw [hnext] at hpick hnew hcur hres
          cases found with
          | true =>
            have hloop := ih hpick.1 (hnew.nonneg hnonneg1) (hnew.schedType.trans hedf1)
              (hpick.2 rfl) (some s2) (fun t ht => by cases ht; exact ⟨hcur rfl, rfl⟩) hres
              (fun hq => .inl ⟨s2, rfl, hq.symm, hcur rfl⟩)
            exact hloop.imp_right fun hno => by cases hno.2.1
          | false => simp at hres

end State

/-- With the scheduler for deadlines, `schedcheck` returns the process it has last picked,
and when it picked this process from queue 7 no other ready process of queue 7 had an
earlier deadline; or it has picked none and returns the current process, which could
still run. -/
theorem schedcheck_earliest {s : State} (h : Reachable PositiveRun s) (hedf : s.schedType = .edf)
    (env : SchedEnv) (fuel : Nat) {rp : Slot} (hrp : (s.schedcheck env fuel).1 = some rp) :
    (∃ t, s.lastPick env fuel = some t ∧ t.procPtr = rp ∧ t.CurrentEarliest) ∨
      s.lastPick env fuel = none ∧ rp = s.procPtr ∧ s.procIsRunnable rp = true := by
  have hinv := EdfInv.positive h
  obtain ⟨s', hres⟩ : ∃ s', s.schedcheck env fuel = (some rp, s') := ⟨_, Prod.ext hrp rfl⟩
  unfold schedcheck at hres
  unfold lastPick
  split_ifs at hres with hrun
  · rw [if_pos hrun]
    have hloop := lastPickLoop_spec hinv.ready hinv.nonneg hedf hrun none
      (fun t ht => nomatch ht) hres
    refine hloop.imp_right fun hnone => ⟨hnone.1, hnone.2.2, ?_⟩
    rw [hnone.2.2]
    exact hrun
  · rw [if_neg hrun]
    have hpick := hinv.ready.pickNew (env.rand fuel)
    have hnew := SameTimers.pickNew s (env.rand fuel)
    have hcur := currentEarliest_pickNew hinv.ready hinv.nonneg hedf (env.rand fuel)
    rcases hnext : s.pickNew (env.rand fuel) with ⟨found, s1⟩
    rw [hnext] at hpick hnew hcur hres
    cases found with
    | true =>
      have hloop := lastPickLoop_spec hpick.1 (hnew.nonneg hinv.nonneg)
        (hnew.schedType.trans hedf) (hpick.2 rfl) (some s1)
        (fun t ht => by cases ht; exact ⟨hcur rfl, rfl⟩) hres
      exact hloop.imp_right fun hnone => nomatch hnone.2.1
    | false => simp at hres

/-- RS is picked from queue 7 with its deadline. -/
theorem schedcheck_earliest_rs :
    ∃ t, (runOps (bootWith 2) deadlineOps).lastPick idleEnv 5 = some t ∧ t.procPtr = rsSlot ∧
      t.CurrentEarliest := by
  have hrs : ((runOps (bootWith 2) deadlineOps).schedcheck idleEnv 5).1 = some rsSlot := by
    decide +kernel
  rcases schedcheck_earliest ⟨2, reaches_runOps (by decide +kernel)⟩ (by decide +kernel) idleEnv 5
    hrs with hpicked | ⟨_, hcur, _⟩
  · exact hpicked
  · exact absurd hcur (by decide +kernel)

/-- RS runs on queue 7 with a deadline of 10 seconds when PM becomes ready with one of 5. -/
def wakeupOps : List Op :=
  [.schedcheck idleEnv 5, .request pmSlot (.chdeadline 2 10), .request pmSlot (.chdeadline 0 5),
    .trap receiveAny, .schedcheck idleEnv 5, .trap receiveAny, .schedcheck idleEnv 5,
    .rtsUnset pmSlot rtsNoPriv]

/-- The current process is kept although a process with an earlier deadline is ready. -/
theorem schedcheck_keeps_later : ¬ ∀ s, Reachable PositiveRun s → s.schedType = .edf →
    ∀ env fuel rp, (s.schedcheck env fuel).1 = some rp →
      ((s.schedcheck env fuel).2.proc rp).pPriority = 7 →
      ∀ j, j ≠ rp → ((s.schedcheck env fuel).2.proc j).pRtsFlags = 0#16 →
        ((s.schedcheck env fuel).2.proc j).pPriority = 7 →
        ¬ (s.schedcheck env fuel).2.EarlierDeadline j rp := by
  intro hall
  refine hall (runOps (bootWith 2) wakeupOps) ⟨2, reaches_runOps (by decide +kernel)⟩
    (by decide +kernel) idleEnv 5 rsSlot (by decide +kernel) (by decide +kernel)
    pmSlot (by decide) (by decide +kernel) (by decide +kernel) ⟨by decide +kernel, .inr ?_⟩
  decide +kernel

/-! ## Deadlines and timers -/

/-- A live process has an expiration time if and only if its deadline is among the active
timers, an active deadline sends its signal to the process it belongs to, and a ready
process with an active deadline is on queue 7. -/
def DeadlinesCoherent (s : State) : Prop :=
  ∃ L, s.timerLinks.Path (.head ()) L ∧ ∀ rp, s.Alive rp →
    (0 < s.expTime rp ↔ .deadline rp ∈ L) ∧
    (.deadline rp ∈ L → (s.proc rp).pDeadline.tmrArg = procNr rp ∧
      (s.proc rp).pDeadline.tmrFunc = some .reachDeadline ∧
      s.runWatchdog (s.proc rp).pDeadline.tmrArg .reachDeadline = s.causeSig rp sigterm ∧
      ((s.proc rp).pRtsFlags = 0#16 → (s.proc rp).pPriority = 7))

/-- A run in which deadlines are positive times, no process with a deadline forks, and no
deadline is due when the clock task looks at the timers. -/
def KeptRun (s : State) (op : Op) : Prop :=
  SystemRun s op ∧ PositiveDeadline s op ∧ DeadlineKept s op

instance (s : State) (op : Op) : Decidable (KeptRun s op) :=
  inferInstanceAs (Decidable (_ ∧ _))

/-- The timers are incoherent if a live process has a deadline and no timer is active. -/
theorem not_deadlinesCoherent (hempty : s.clockTimers = none) (rp : Slot)
    (hlive : s.Alive rp) (hpos : 0 < s.expTime rp) : ¬ DeadlinesCoherent s := by
  rintro ⟨L, hpath, hcoherent⟩
  have hnone : s.timerLinks.Path (.head ()) [] := hempty
  have hnil : L = [] := hpath.unique hnone
  have hlinked := (hcoherent rp hlive).1.mp hpos
  rw [hnil] at hlinked
  exact absurd hlinked not_mem_nil

/-- RS gets a deadline of one second, and the clock task looks at the timers after that. -/
def expiryOps : List Op :=
  [.schedcheck idleEnv 5, .request pmSlot (.chdeadline 2 1)] ++ List.replicate 60 .tick ++
    [.trap receiveAny, .schedcheck idleEnv 5, .clockTask]

end Minix.Kernel
