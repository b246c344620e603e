/-
  Foundation/WaitGraph.lean --- acyclic relations and walks along them.

  A wait-for graph is a relation on processes.  It stays acyclic when edges go away,
  and when an edge `a → b` is added while there is no way from `b` to `a`.  On a
  finite type every walk along an acyclic relation ends; `Acyclic.exists_rank` bounds
  its length for walks that stop when they meet a goal.
-/
import Mathlib.Data.Fintype.Card
import Mathlib.Logic.Relation

set_option autoImplicit false

namespace Minix.Foundation

open Relation

variable {α : Type} {r r' : α → α → Prop}

/-- No walk of at least one edge returns to where it started. -/
def Acyclic (r : α → α → Prop) : Prop := ∀ x, ¬ TransGen r x x

/-- Removing edges closes no cycle. -/
theorem Acyclic.mono (h : Acyclic r) (hsub : ∀ x y, r' x y → r x y) : Acyclic r' := by
  intro x hcycle
  exact h x (hcycle.lift id hsub)

/-- A walk over a relation with one edge more crosses that edge or it does not. -/
theorem transGen_insert {a b : α} (hsub : ∀ x y, r' x y → r x y ∨ x = a ∧ y = b) {x y : α}
    (h : TransGen r' x y) :
    TransGen r x y ∨ ReflTransGen r x a ∧ ReflTransGen r b y := by
  induction h with
  | single hedge =>
    rcases hsub _ _ hedge with hold | ⟨rfl, rfl⟩
    · exact .inl (.single hold)
    · exact .inr ⟨.refl, .refl⟩
  | tail _ hedge ih =>
    rcases hsub _ _ hedge with hold | ⟨rfl, rfl⟩
    · rcases ih with hold' | ⟨hto, hfrom⟩
      · exact .inl (hold'.tail hold)
      · exact .inr ⟨hto, hfrom.tail hold⟩
    · rcases ih with hold' | ⟨hto, _⟩
      · exact .inr ⟨hold'.to_reflTransGen, .refl⟩
      · exact .inr ⟨hto, .refl⟩

/-- Adding an edge closes no cycle if there is no way back along it. -/
theorem Acyclic.insert (h : Acyclic r) {a b : α} (hback : ¬ ReflTransGen r b a)
    (hsub : ∀ x y, r' x y → r x y ∨ x = a ∧ y = b) : Acyclic r' := by
  intro x hcycle
  rcases transGen_insert hsub hcycle with hold | ⟨hto, hfrom⟩
  · exact h x hold
  · exact hback (hfrom.trans hto)

/-- If `x` has no other successor than `y`, a walk from `x` that goes on goes through `y`. -/
theorem reflTransGen_iff_of_unique {x y goal : α} (hedge : r x y)
    (honly : ∀ z, r x z → z = y) (hne : x ≠ goal) :
    ReflTransGen r x goal ↔ ReflTransGen r y goal := by
  constructor
  · intro hwalk
    rcases hwalk.cases_head with heq | ⟨z, hz, hrest⟩
    · exact absurd heq hne
    · rwa [honly z hz] at hrest
  · exact fun hwalk => .head hedge hwalk

/-- A walk from a node without successor goes nowhere. -/
theorem not_reflTransGen_of_none {x goal : α} (hnone : ∀ z, ¬ r x z) (hne : x ≠ goal) :
    ¬ ReflTransGen r x goal := by
  intro hwalk
  rcases hwalk.cases_head with heq | ⟨z, hz, _⟩
  · exact hne heq
  · exact hnone z hz

open Classical in
/-- On a finite type, a number that falls along every edge that does not leave the
goal.  It counts the nodes other than the goal that can still be visited. -/
theorem Acyclic.exists_rank [Fintype α] (h : Acyclic r) {goal : α} :
    ∃ rank : α → Nat, (∀ x, rank x < Fintype.card α) ∧ (∀ x, x ≠ goal → 0 < rank x) ∧
      ∀ x y, r x y → x ≠ goal → rank y < rank x := by
  let ahead : α → Finset α := fun x =>
    Finset.univ.filter fun y => ReflTransGen r x y ∧ y ≠ goal
  have hself : ∀ x, x ≠ goal → x ∈ ahead x := by
    intro x hx
    exact Finset.mem_filter.mpr ⟨Finset.mem_univ x, .refl, hx⟩
  refine ⟨fun x => (ahead x).card, ?_, ?_, ?_⟩
  · intro x
    refine Finset.card_lt_univ_of_notMem (x := goal) ?_
    intro hgoal
    exact (Finset.mem_filter.mp hgoal).2.2 rfl
  · exact fun x hx => Finset.card_pos.mpr ⟨x, hself x hx⟩
  intro x y hedge hx
  refine Finset.card_lt_card (Finset.ssubset_iff_subset_ne.mpr ⟨?_, ?_⟩)
  · intro z hz
    obtain ⟨_, hwalk, hz'⟩ := Finset.mem_filter.mp hz
    exact Finset.mem_filter.mpr ⟨Finset.mem_univ z, .head hedge hwalk, hz'⟩
  · intro heq
    -- `x` can be visited from itself, but not from its successor
    have hmem : x ∈ ahead y := heq ▸ hself x hx
    have hback := (Finset.mem_filter.mp hmem).2.1
    exact h x (.head' hedge hback)

end Minix.Foundation
