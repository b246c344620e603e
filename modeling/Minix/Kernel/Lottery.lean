/-
  Kernel/Lottery.lean --- the lottery of `pick_proc` gives exact shares.

  With `sched_type == 1` the queues 0 to 5 come first.  If they are empty, every
  runnable process on queue `q`, for `q` from 6 to 15, holds `16 - q` tickets.  One
  pair of loops counts the tickets and another pair spends the draw.  Both are
  compared here with one list of ticket holders, `ticketList`, so that they agree
  process by process; the shares are then those of `Foundation.countP_holder`.
-/
import Minix.Kernel.Schedcheck
import Minix.Foundation.Draw

set_option autoImplicit false

namespace Minix.Kernel

open Minix.Foundation List

variable {q : Int} {lists : List (Int × List Slot)} {rp : Slot} {qs : List Int}

namespace State

/-! ## The two pairs of loops -/

/-- The ticket holders on queue `q`. -/
def queueTickets (s : State) (q : Int) (rps : List Slot) : List (Slot × Nat) :=
  (rps.filter s.procIsRunnable).map fun rp => (rp, (16 - q).toNat)

/-- The ticket holders on all queues of the lottery. -/
def ticketList (s : State) : List (Int × List Slot) → List (Slot × Nat)
  | [] => []
  | (q, rps) :: rest => s.queueTickets q rps ++ s.ticketList rest

variable (s : State)

theorem countTickets_eq (hq : q ≤ 16) (total : Int) (rps : List Slot) :
    s.countTickets q total rps = total + tickets (s.queueTickets q rps) := by
  induction rps generalizing total with
  | nil => simp [countTickets, queueTickets, tickets]
  | cons rp rps ih =>
    rw [countTickets, ih]
    cases hrun : s.procIsRunnable rp with
    | false => simp [queueTickets, hrun]
    | true =>
      simp only [queueTickets, hrun, filter_cons_of_pos, map_cons, tickets_cons,
        if_true]
      omega

theorem totalTickets_eq (total : Int) (hlists : ∀ e ∈ lists, e.1 ≤ 16) :
    s.totalTickets total lists = total + tickets (s.ticketList lists) := by
  induction lists generalizing total with
  | nil => simp [totalTickets, ticketList, tickets]
  | cons e lists ih =>
    obtain ⟨q, rps⟩ := e
    have hq : q ≤ 16 := hlists (q, rps) mem_cons_self
    rw [totalTickets, ih _ fun e he => hlists e (mem_cons_of_mem _ he),
      s.countTickets_eq hq, ticketList, tickets_append]
    omega

/-- Spending a draw on one queue: the holder, or what is left for the next queue. -/
theorem spendTickets_eq (hq : q ≤ 16) (w : Nat) (rps : List Slot) : s.spendTickets q w rps =
      match holder (s.queueTickets q rps) w with
      | some rp => .inl rp
      | none => .inr ((w - tickets (s.queueTickets q rps) : Nat) : Int) := by
  induction rps generalizing w with
  | nil => simp [spendTickets, queueTickets, holder, tickets]
  | cons rp rps ih =>
    rw [spendTickets]
    cases hrun : s.procIsRunnable rp with
    | false =>
      have hskip : s.queueTickets q (rp :: rps) = s.queueTickets q rps := by
        simp [queueTickets, hrun]
      rw [hskip]
      simpa using ih w
    | true =>
      have hcons : s.queueTickets q (rp :: rps) =
          (rp, (16 - q).toNat) :: s.queueTickets q rps := by
        simp [queueTickets, hrun]
      rw [hcons, holder, tickets_cons]
      by_cases hlt : w < (16 - q).toNat
      · have hneg : (w : Int) - (16 - q) < 0 := by omega
        simp [hlt, hneg]
      have hsub : (w : Int) - (16 - q) = ((w - (16 - q).toNat : Nat) : Int) := by omega
      have hrest : w - ((16 - q).toNat + tickets (s.queueTickets q rps)) =
          w - (16 - q).toNat - tickets (s.queueTickets q rps) := by omega
      rw [if_neg hlt, hrest, ← ih]
      simp [hsub]

/-- The spending loops find the holder of the drawn ticket. -/
theorem drawWinner_eq (w : Nat) (hlists : ∀ e ∈ lists, e.1 ≤ 16) :
    s.drawWinner w lists = holder (s.ticketList lists) w := by
  induction lists generalizing w with
  | nil => simp [drawWinner, ticketList, holder]
  | cons e lists ih =>
    obtain ⟨q, rps⟩ := e
    have hq : q ≤ 16 := hlists (q, rps) mem_cons_self
    rw [drawWinner, s.spendTickets_eq hq, ticketList, holder_append]
    cases holder (s.queueTickets q rps) w with
    | some rp => rfl
    | none => exact ih _ fun e he => hlists e (mem_cons_of_mem _ he)

/-! ## Shares -/

/-- Each runnable process of a queue holds the tickets of that queue, once. -/
theorem ticketsOf_queueTickets {rps : List Slot} (hnodup : rps.Nodup)
    (hrun : s.procIsRunnable rp = true) :
    ticketsOf rp (s.queueTickets q rps) = if rp ∈ rps then (16 - q).toNat else 0 := by
  induction rps with
  | nil => rfl
  | cons x rps ih =>
    have hx : x ∉ rps := (nodup_cons.mp hnodup).1
    have htail := ih (nodup_cons.mp hnodup).2
    by_cases hxr : x = rp
    · subst hxr
      have hcons : s.queueTickets q (x :: rps) =
          (x, (16 - q).toNat) :: s.queueTickets q rps := by
        simp [queueTickets, hrun]
      rw [hcons, ticketsOf, htail]
      simp [hx]
    · have hmem : rp ∈ x :: rps ↔ rp ∈ rps := by
        simp [Ne.symm hxr]
      have hsame : ticketsOf rp (s.queueTickets q (x :: rps)) =
          ticketsOf rp (s.queueTickets q rps) := by
        cases hrx : s.procIsRunnable x with
        | false => simp [queueTickets, hrx]
        | true => simp [queueTickets, hrx, ticketsOf, hxr]
      rw [hsame, htail]
      simp [hmem]

/-- The lists of the lottery queues, as the loops read them. -/
def lotteryLists (Q : Int → List Slot) (qs : List Int) : List (Int × List Slot) :=
  qs.map fun q => (q, Q q)

theorem ticketsOf_ticketList {Q : Int → List Slot} (hnodup : ∀ q, (Q q).Nodup)
    (hdisj : ∀ q q' rp, rp ∈ Q q → rp ∈ Q q' → q = q')
    (hrun : s.procIsRunnable rp = true) (hrp : rp ∈ Q q) (hqs : qs.Nodup) :
    ticketsOf rp (s.ticketList (lotteryLists Q qs)) = if q ∈ qs then (16 - q).toNat else 0 := by
  induction qs with
  | nil => rfl
  | cons q' qs ih =>
    have hq' : q' ∉ qs := (nodup_cons.mp hqs).1
    have htail := ih (nodup_cons.mp hqs).2
    have hhead := s.ticketsOf_queueTickets (q := q') (hnodup q') hrun
    have hlist : s.ticketList (lotteryLists Q (q' :: qs)) =
        s.queueTickets q' (Q q') ++ s.ticketList (lotteryLists Q qs) := rfl
    rw [hlist, ticketsOf_append, hhead, htail]
    by_cases hqq : q' = q
    · subst hqq
      simp [hrp, hq']
    · have hnot : rp ∉ Q q' := fun hmem => hqq (hdisj q' q rp hmem hrp)
      simp [hnot, Ne.symm hqq]

theorem tickets_queueTickets (q : Int) (rps : List Slot) :
    tickets (s.queueTickets q rps) =
      (16 - q).toNat * (rps.filter s.procIsRunnable).length := by
  unfold queueTickets
  induction rps.filter s.procIsRunnable with
  | nil => rfl
  | cons rp l ih =>
    rw [map_cons, tickets_cons, ih, length_cons, Nat.mul_add, Nat.mul_one]
    omega

/-- The sum over the lottery queues of `16 - q` times the number of runnable processes. -/
def lotteryTickets (s : State) (Q : Int → List Slot) : Nat :=
  (lotteryQueues.map fun q => (16 - q).toNat * ((Q q).filter s.procIsRunnable).length).sum

theorem tickets_ticketList {Q : Int → List Slot} {qs : List Int} :
    tickets (s.ticketList (lotteryLists Q qs)) =
      (qs.map fun q => (16 - q).toNat * ((Q q).filter s.procIsRunnable).length).sum := by
  induction qs with
  | nil => rfl
  | cons q qs ih =>
    have hlist : s.ticketList (lotteryLists Q (q :: qs)) =
        s.queueTickets q (Q q) ++ s.ticketList (lotteryLists Q qs) := rfl
    rw [hlist, tickets_append, tickets_queueTickets, ih, map_cons, sum_cons]

/-! ## `pick_proc` -/

variable {s} {Q : Int → List Slot}

theorem queueNodes_of_path {l : List Slot} (h : s.readyLinks.Path (.head q) l) :
    s.queueNodes q = some l := by
  refine h.nodes_eq ?_
  have hlen := h.length_le
  rw [Fintype.card_fin] at hlen
  omega

section

variable (hQ : ∀ q, s.readyLinks.Path (.head q) (Q q))
include hQ

theorem queueLists_of_path (qs : List Int) : s.queueLists qs = some (lotteryLists Q qs) := by
  induction qs with
  | nil => rfl
  | cons q qs ih => simp [queueLists, queueNodes_of_path (hQ q), ih, lotteryLists]

theorem rdyHead_of_path (q : Int) : s.rdyHead q = (Q q).head? :=
  (hQ q).get_eq

/-- No queue of the range has a process. -/
theorem firstReady_eq_none (h : ∀ q ∈ qs, Q q = []) : s.firstReady qs = none := by
  induction qs with
  | nil => rfl
  | cons q qs ih =>
    have hhead : s.rdyHead q = none := by
      rw [rdyHead_of_path hQ, h q mem_cons_self]
      rfl
    rw [firstReady, hhead]
    exact ih fun q' hq' => h q' (mem_cons_of_mem _ hq')

/-- The first queue of a sorted range that has a process. -/
theorem firstReady_eq_some (hsorted : qs.Pairwise (· < ·)) (hq : q ∈ qs)
    (hfirst : ∀ q' ∈ qs, q' < q → Q q' = []) {rest : List Slot}
    (hrp : Q q = rp :: rest) : s.firstReady qs = some (q, rp) := by
  induction qs with
  | nil => simp at hq
  | cons q' qs ih =>
    obtain ⟨hlt, hsorted'⟩ := pairwise_cons.mp hsorted
    rcases mem_cons.mp hq with rfl | hq'
    · rw [firstReady, rdyHead_of_path hQ, hrp]
      rfl
    · have hempty : Q q' = [] := hfirst q' mem_cons_self (hlt q hq')
      rw [firstReady, rdyHead_of_path hQ, hempty]
      exact ih hsorted' hq' fun x hx => hfirst x (mem_cons_of_mem _ hx)

end

theorem lotteryLists_le (Q : Int → List Slot) :
    ∀ e ∈ lotteryLists Q lotteryQueues, e.1 ≤ 16 := by
  intro e he
  obtain ⟨q, hq, rfl⟩ := mem_map.mp he
  have hle : ∀ q ∈ lotteryQueues, q ≤ 16 := by decide
  exact hle q hq

/-- With queues 0 to 5 empty, the draw decides. -/
theorem pickLottery_fst (hQ : ∀ q, s.readyLinks.Path (.head q) (Q q))
    (hfixed : ∀ q ∈ fixedQueues, Q q = []) (rand : Nat) :
    (s.pickLottery rand).1 =
      if s.lotteryTickets Q = 0 then none
      else holder (s.ticketList (lotteryLists Q lotteryQueues)) (rand % s.lotteryTickets Q) := by
  have hle := lotteryLists_le Q
  have htotal : s.totalTickets 0 (lotteryLists Q lotteryQueues) = (s.lotteryTickets Q : Int) := by
    rw [s.totalTickets_eq 0 hle, s.tickets_ticketList]
    simp [lotteryTickets]
  unfold pickLottery
  rw [firstReady_eq_none hQ hfixed, queueLists_of_path hQ]
  dsimp only
  rw [htotal]
  by_cases hzero : s.lotteryTickets Q = 0
  · simp [hzero]
  have hpos : (0 : Int) < (s.lotteryTickets Q : Int) := by omega
  have hdraw : ((rand : Int) % (s.lotteryTickets Q : Int)) =
      ((rand % s.lotteryTickets Q : Nat) : Int) := by
    exact (Int.natCast_mod rand (s.lotteryTickets Q)).symm
  rw [if_pos hpos, if_neg hzero, hdraw, s.drawWinner_eq _ hle]
  cases holder (s.ticketList (lotteryLists Q lotteryQueues)) (rand % s.lotteryTickets Q) with
  | some rp => rfl
  | none => rfl

theorem mem_ticketList {n : Nat} (h : (rp, n) ∈ s.ticketList (lotteryLists Q qs)) :
    ∃ q ∈ qs, rp ∈ Q q ∧ (s.proc rp).pRtsFlags = 0#16 := by
  induction qs with
  | nil => exact absurd h (by simp [lotteryLists, ticketList])
  | cons q qs ih =>
    rcases mem_append.mp h with hhead | htail
    · obtain ⟨x, hx, heq⟩ := mem_map.mp hhead
      have hxr : x = rp := congrArg Prod.fst heq
      obtain ⟨hmem, hrun⟩ := mem_filter.mp hx
      refine ⟨q, mem_cons_self, hxr ▸ hmem, ?_⟩
      rw [← hxr]
      simpa [procIsRunnable] using hrun
    · obtain ⟨q', hq', hrest⟩ := ih htail
      exact ⟨q', mem_cons_of_mem _ hq', hrest⟩

/-- The lottery is exact.  `Q` are the contents of the ready queues, on which no
process occurs twice.  With queues 0 to 5 empty and `T` tickets in all, the result
is NULL iff `T` is zero, over the draws from 0 to `T - 1` every runnable process of
queue `q` wins `16 - q` times, and only such processes win.  Otherwise the head of
the first queue with a process is picked. -/
theorem pickProc_lottery_exact (s : State) (Q : Int → List Slot)
    (hs : s.schedType = .lottery) (hQ : ∀ q, s.readyLinks.Path (.head q) (Q q))
    (hdisj : ∀ q q' rp, rp ∈ Q q → rp ∈ Q q' → q = q') :
    ((∀ q ∈ fixedQueues, Q q = []) →
      (∀ rand, (s.pickProc rand).1 = none ↔ s.lotteryTickets Q = 0) ∧
      (∀ q ∈ lotteryQueues, ∀ rp ∈ Q q, (s.proc rp).pRtsFlags = 0#16 →
        (((List.range (s.lotteryTickets Q)).countP fun draw =>
          decide ((s.pickProc draw).1 = some rp) : Nat) : Int) = 16 - q) ∧
      (∀ rand rp, (s.pickProc rand).1 = some rp →
        ∃ q ∈ lotteryQueues, rp ∈ Q q ∧ (s.proc rp).pRtsFlags = 0#16)) ∧
    (∀ q ∈ fixedQueues, (∀ q' ∈ fixedQueues, q' < q → Q q' = []) →
      ∀ rp rest, Q q = rp :: rest → ∀ rand, (s.pickProc rand).1 = some rp) := by
  have hpick : ∀ rand, s.pickProc rand = s.pickLottery rand := by
    intro rand
    rw [pickProc, hs]
  have htickets : tickets (s.ticketList (lotteryLists Q lotteryQueues)) = s.lotteryTickets Q :=
    s.tickets_ticketList
  constructor
  · intro hfixed
    refine ⟨?_, ?_, ?_⟩
    · intro rand
      rw [hpick, pickLottery_fst hQ hfixed]
      by_cases hzero : s.lotteryTickets Q = 0
      · simp [hzero]
      · rw [if_neg hzero, holder_eq_none_iff, htickets]
        have hlt : rand % s.lotteryTickets Q < s.lotteryTickets Q :=
          Nat.mod_lt _ (by omega)
        omega
    · intro q hq rp hrp hflags
      have hrun : s.procIsRunnable rp = true := by simp [procIsRunnable, hflags]
      have hshare : ticketsOf rp (s.ticketList (lotteryLists Q lotteryQueues)) =
          (16 - q).toNat := by
        rw [s.ticketsOf_ticketList (fun q => (hQ q).nodup) hdisj hrun hrp (by decide), if_pos hq]
      have hcount := countP_holder rp (s.ticketList (lotteryLists Q lotteryQueues))
      rw [htickets, hshare] at hcount
      have hsame : (range (s.lotteryTickets Q)).countP (fun draw =>
            decide ((s.pickProc draw).1 = some rp)) = (16 - q).toNat := by
        rw [← hcount]
        refine countP_congr ?_
        intro w hw
        have hlt : w < s.lotteryTickets Q := mem_range.mp hw
        have hne : s.lotteryTickets Q ≠ 0 := by omega
        rw [hpick, pickLottery_fst hQ hfixed, if_neg hne, Nat.mod_eq_of_lt hlt]
      have hle : ∀ q ∈ lotteryQueues, q ≤ 16 := by decide
      rw [hsame, Int.toNat_of_nonneg (by have := hle q hq; omega)]
    · intro rand rp hwin
      rw [hpick, pickLottery_fst hQ hfixed] at hwin
      split at hwin
      · simp at hwin
      · obtain ⟨n, hn⟩ := mem_of_holder hwin
        exact mem_ticketList hn
  · intro q hq hfirst rp rest hrp rand
    rw [hpick, pickLottery, firstReady_eq_some hQ (by decide) hq hfirst hrp]

end State

/-! ## A state with two ticket holders -/

/-- RS alone on queue 7 and PM alone on queue 10. -/
def lotterySampleQueues (q : Int) : List Slot :=
  if q = 7 then [rsSlot] else if q = 10 then [pmSlot] else []

/-- A state with these queues in which the lottery decides. -/
def lotterySample : State :=
  { emptyState with
    schedType := .lottery
    proc := fun rp => (freeProc rp).setRts (if rp = rsSlot ∨ rp = pmSlot then 0 else rtsSlotFree)
    rdyHead := fun q => (lotterySampleQueues q).head? }

theorem lotterySample_path (q : Int) :
    lotterySample.readyLinks.Path (.head q) (lotterySampleQueues q) := by
  by_cases h7 : q = 7
  · subst h7
    exact ⟨rfl, rfl⟩
  by_cases h10 : q = 10
  · subst h10
    exact ⟨rfl, rfl⟩
  · have hempty : lotterySampleQueues q = [] := by simp [lotterySampleQueues, h7, h10]
    rw [hempty, Links.path_nil]
    change (lotterySampleQueues q).head? = none
    rw [hempty]
    rfl

theorem lotterySample_disjoint (q q' : Int) (rp : Slot) (h : rp ∈ lotterySampleQueues q)
    (h' : rp ∈ lotterySampleQueues q') : q = q' := by
  have hne : rsSlot ≠ pmSlot := by decide
  unfold lotterySampleQueues at h h'
  split at h <;> split at h'
  all_goals (try split at h)
  all_goals (try split at h')
  all_goals simp_all

/-- Of the fifteen tickets RS holds nine and PM six. -/
theorem lotterySample_shares :
    lotterySample.lotteryTickets lotterySampleQueues = 15 ∧
    (((List.range (lotterySample.lotteryTickets lotterySampleQueues)).countP fun draw =>
      decide ((lotterySample.pickProc draw).1 = some rsSlot) : Nat) : Int) = 16 - 7 ∧
    (((List.range (lotterySample.lotteryTickets lotterySampleQueues)).countP fun draw =>
      decide ((lotterySample.pickProc draw).1 = some pmSlot) : Nat) : Int) = 16 - 10 := by
  have hexact := State.pickProc_lottery_exact lotterySample lotterySampleQueues rfl
    lotterySample_path lotterySample_disjoint
  have hshare := (hexact.1 (by decide)).2.1
  exact ⟨by decide, hshare 7 (by decide) rsSlot (by decide) rfl,
    hshare 10 (by decide) pmSlot (by decide) rfl⟩

end Minix.Kernel
