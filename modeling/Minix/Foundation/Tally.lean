/-
  Foundation/Tally.lean --- adding up a weight over a finite table.

  A table is a function on a finite type.  When one entry of a table is replaced, the total of
  a weight changes by the weights of the old and of the new entry.
-/
import Mathlib.Algebra.BigOperators.Group.Finset.Basic
import Mathlib.Algebra.Order.BigOperators.Group.Finset
import Mathlib.Data.Fintype.BigOperators
import Mathlib.Algebra.BigOperators.Fin

set_option autoImplicit false

namespace Minix.Foundation

open Function

variable {ι α : Type} [Fintype ι] [DecidableEq ι]

/-- The total of a weight over a table. -/
@[irreducible]
def tally (w : α → Nat) (f : ι → α) : Nat := ∑ i, w (f i)

omit [DecidableEq ι] in
theorem tally_congr {w w' : α → Nat} {f g : ι → α} (h : ∀ i, w (f i) = w' (g i)) : tally w f = tally w' g := by
  unfold tally
  exact Finset.sum_congr rfl fun i _ => h i

omit [DecidableEq ι] in
theorem tally_le {w w' : α → Nat} {f g : ι → α} (h : ∀ i, w (f i) ≤ w' (g i)) : tally w f ≤ tally w' g := by
  unfold tally
  exact Finset.sum_le_sum fun i _ => h i

omit [DecidableEq ι] in
/-- Each entry has its part in the total. -/
theorem le_tally (w : α → Nat) (f : ι → α) (i : ι) : w (f i) ≤ tally w f := by
  unfold tally
  exact Finset.single_le_sum (f := fun i => w (f i)) (fun _ _ => Nat.zero_le _) (Finset.mem_univ i)

omit [DecidableEq ι] in
theorem tally_eq_zero {w : α → Nat} {f : ι → α} : tally w f = 0 ↔ ∀ i, w (f i) = 0 := by
  simp [tally]

/-- One entry is replaced. -/
theorem tally_update (w : α → Nat) (f : ι → α) (i : ι) (a : α) :
    tally w (update f i a) + w (f i) = tally w f + w a := by
  unfold tally
  rw [← Finset.add_sum_erase _ _ (Finset.mem_univ i), ← Finset.add_sum_erase _ (fun j => w (f j)) (Finset.mem_univ i)]
  have hrest : ∑ j ∈ Finset.univ.erase i, w (update f i a j) = ∑ j ∈ Finset.univ.erase i, w (f j) := by
    refine Finset.sum_congr rfl fun j hj => ?_
    rw [update_of_ne (Finset.ne_of_mem_erase hj)]
  rw [hrest, update_self]
  omega

/-- How many entries have a property. -/
abbrev tallyOf (P : α → Prop) [DecidablePred P] (f : ι → α) : Nat := tally (fun a => if P a then 1 else 0) f

/-- A count of the entries with a property goes with one entry that is replaced. -/
theorem tallyOf_update {P : α → Prop} [DecidablePred P] {f : ι → α} {i : ι} {a : α} {n n' : Int} (h : n = tallyOf P f)
    (hn : n' + (if P (f i) then 1 else 0) = n + if P a then 1 else 0) : n' = tallyOf P (update f i a) := by
  have htally : tallyOf P (update f i a) + _ = tallyOf P f + _ := tally_update (fun a => if P a then 1 else 0) f i a
  split_ifs at htally hn <;> omega

/-- Counting over the indices. -/
theorem countP_finRange {n : Nat} (P : α → Prop) [DecidablePred P] (f : Fin n → α) :
    ((List.finRange n).countP fun i => decide (P (f i))) = tallyOf P f := by
  unfold tallyOf tally
  rw [Fin.sum_univ_def]
  induction List.finRange n with
  | nil => rfl
  | cons i rest ih =>
    rw [List.countP_cons, List.map_cons, List.sum_cons, ih]
    simp only [decide_eq_true_eq]
    omega

end Minix.Foundation
