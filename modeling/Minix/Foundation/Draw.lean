/-
  Foundation/Draw.lean --- drawing from a list of ticket holders.

  Each entry of the list holds a number of tickets.  The tickets are numbered in
  list order, and a draw is the number of a ticket.  `holder l w` is the entry that
  holds ticket `w`; it is found by spending the draw entry by entry.  The main
  result is that the shares are exact: over all draws, each holder wins as often as
  it holds tickets (`countP_holder`).
-/
import Mathlib.Data.List.Basic
import Mathlib.Data.List.Count
import Mathlib.Algebra.BigOperators.Group.List.Basic

set_option autoImplicit false

namespace Minix.Foundation

variable {α : Type}

/-- The number of tickets in the list. -/
def tickets : List (α × Nat) → Nat
  | [] => 0
  | (_, n) :: l => n + tickets l

/-- The number of tickets that `a` holds. -/
def ticketsOf [DecidableEq α] (a : α) : List (α × Nat) → Nat
  | [] => 0
  | (b, n) :: l => (if b = a then n else 0) + ticketsOf a l

/-- The holder of the ticket with number `w`. -/
def holder : List (α × Nat) → Nat → Option α
  | [], _ => none
  | (a, n) :: l, w => if w < n then some a else holder l (w - n)

@[simp] theorem tickets_cons (a : α) (n : Nat) (l : List (α × Nat)) :
    tickets ((a, n) :: l) = n + tickets l := rfl

theorem tickets_append (l l' : List (α × Nat)) :
    tickets (l ++ l') = tickets l + tickets l' := by
  induction l with
  | nil => simp [tickets]
  | cons p l ih =>
    obtain ⟨a, n⟩ := p
    simp only [List.cons_append, tickets_cons, ih]
    omega

/-- A draw has a holder iff there are that many tickets. -/
theorem holder_eq_none_iff (l : List (α × Nat)) (w : Nat) :
    holder l w = none ↔ tickets l ≤ w := by
  induction l generalizing w with
  | nil => simp [holder, tickets]
  | cons p l ih =>
    obtain ⟨a, n⟩ := p
    simp only [holder, tickets_cons]
    split
    · constructor
      · intro h
        simp at h
      · intro h
        omega
    · rw [ih]
      omega

/-- Only entries of the list hold tickets. -/
theorem mem_of_holder {l : List (α × Nat)} {w : Nat} {a : α} (h : holder l w = some a) :
    ∃ n, (a, n) ∈ l := by
  induction l generalizing w with
  | nil => simp [holder] at h
  | cons p l ih =>
    obtain ⟨b, n⟩ := p
    simp only [holder] at h
    split at h
    · cases h
      exact ⟨n, List.mem_cons_self⟩
    · obtain ⟨m, hm⟩ := ih h
      exact ⟨m, List.mem_cons_of_mem _ hm⟩

/-- Spending a draw over two lists one after the other. -/
theorem holder_append (l l' : List (α × Nat)) (w : Nat) :
    holder (l ++ l') w = (holder l w).or (holder l' (w - tickets l)) := by
  induction l generalizing w with
  | nil => simp [holder, tickets]
  | cons p l ih =>
    obtain ⟨a, n⟩ := p
    simp only [List.cons_append, holder, tickets_cons]
    split
    · simp
    · rw [ih, Nat.sub_sub]

section Share

variable [DecidableEq α]

/-- Over all draws, each holder wins as often as it holds tickets. -/
theorem countP_holder (a : α) (l : List (α × Nat)) :
    (List.range (tickets l)).countP (fun w => decide (holder l w = some a)) =
      ticketsOf a l := by
  induction l with
  | nil => rfl
  | cons p l ih =>
    obtain ⟨b, n⟩ := p
    -- the first `n` draws fall to the first entry, the others to the rest of the list
    have hfirst : ∀ w ∈ List.range n,
        decide (holder ((b, n) :: l) w = some a) = decide (b = a) := by
      intro w hw
      have hlt : w < n := List.mem_range.mp hw
      simp [holder, hlt]
    have hrest : ∀ w ∈ List.range (tickets l),
        decide (holder ((b, n) :: l) (n + w) = some a) = decide (holder l w = some a) := by
      intro w _
      have hge : ¬ n + w < n := by omega
      simp [holder, hge]
    rw [tickets_cons, List.range_add, List.countP_append, List.countP_map, ticketsOf, ← ih]
    congr 1
    · rw [List.countP_congr (q := fun _ => decide (b = a)) (by
        intro w hw
        rw [hfirst w hw])]
      by_cases hba : b = a <;> simp [hba]
    · refine List.countP_congr ?_
      intro w hw
      have h := hrest w hw
      simp only [Function.comp]
      rw [h]

theorem ticketsOf_append (a : α) (l l' : List (α × Nat)) :
    ticketsOf a (l ++ l') = ticketsOf a l + ticketsOf a l' := by
  induction l with
  | nil => simp [ticketsOf]
  | cons p l ih =>
    obtain ⟨b, n⟩ := p
    simp only [List.cons_append, ticketsOf, ih]
    omega

end Share

end Minix.Foundation
