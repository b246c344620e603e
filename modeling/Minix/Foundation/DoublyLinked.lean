/-
  Foundation/DoublyLinked.lean --- a doubly linked list threaded through a table.

  The nodes are table entries with a link to the next and one to the previous node; two
  cells hold the first and the last node.  `Holds d l` says that the links in both
  directions go through exactly the nodes `l`.  A node is removed by its own links, without
  a walk, so that removing a node that is not on the list writes to the links of others.
-/
import Mathlib.Data.List.FinRange
import Mathlib.Data.List.Nodup
import Mathlib.Logic.Function.Basic

set_option autoImplicit false

open List Function

namespace Minix.Foundation

/-- The links of a doubly linked list. -/
structure DLinks (N : Type) where
  next : N → Option N
  prev : N → Option N
  front : Option N
  rear : Option N

namespace DLinks

variable {N : Type}

/-- The nodes `l` are linked in both directions up to the rear; `p` is before the first. -/
def Seg (d : DLinks N) : Option N → List N → Prop
  | p, [] => d.rear = p
  | p, n :: l => d.prev n = p ∧ d.next n = l.head? ∧ d.Seg (some n) l

/-- The list has the nodes `l`. -/
structure Holds (d : DLinks N) (l : List N) : Prop where
  front : d.front = l.head?
  seg : d.Seg none l
  nodup : l.Nodup

/-- Segments read only the links of their nodes. -/
theorem Seg.congr {d d' : DLinks N} {p : Option N} {l : List N} (h : d.Seg p l)
    (hnext : ∀ x ∈ l, d'.next x = d.next x) (hprev : ∀ x ∈ l, d'.prev x = d.prev x)
    (hrear : d'.rear = d.rear) : d'.Seg p l := by
  induction l generalizing p with
  | nil => exact hrear.trans h
  | cons n l ih =>
    refine ⟨(hprev n (by simp)).trans h.1, (hnext n (by simp)).trans h.2.1, ?_⟩
    exact ih h.2.2 (fun x hx => hnext x (mem_cons_of_mem _ hx))
      fun x hx => hprev x (mem_cons_of_mem _ hx)

theorem Seg.rear_eq {d : DLinks N} {p : Option N} {l : List N} (h : d.Seg p l) :
    d.rear = l.getLast?.or p := by
  induction l generalizing p with
  | nil =>
    have hrear : d.rear = p := h
    simpa using hrear
  | cons n l ih =>
    rw [ih h.2.2]
    cases l with
    | nil => rfl
    | cons m l =>
      rfl

/-- The links of a node on a segment. -/
theorem Seg.links {d : DLinks N} {p : Option N} {a b : List N} {n : N} (h : d.Seg p (a ++ n :: b)) :
    d.prev n = a.getLast?.or p ∧ d.next n = b.head? ∧ d.Seg (some n) b := by
  induction a generalizing p with
  | nil =>
    have hlinks : d.prev n = p ∧ d.next n = b.head? ∧ d.Seg (some n) b := h
    simpa using hlinks
  | cons m a ih =>
    obtain ⟨hprev, hrest⟩ := ih h.2.2
    refine ⟨?_, hrest⟩
    rw [hprev]
    cases a with
    | nil => rfl
    | cons x a =>
      rfl

/-! ## A table that is linked in order -/

theorem finRange_drop {n i : Nat} (h : i < n) :
    (List.finRange n).drop i = ⟨i, h⟩ :: (List.finRange n).drop (i + 1) := by
  rw [drop_eq_getElem_cons (by simpa using h), getElem_finRange]
  rfl

theorem finRange_drop_head (n i : Nat) :
    ((List.finRange n).drop i).head? = if h : i < n then some ⟨i, h⟩ else none := by
  by_cases h : i < n
  · rw [finRange_drop h, dif_pos h]
    rfl
  · rw [dif_neg h, drop_eq_nil_of_le (by simpa using h)]
    rfl

/-- A table whose entries are linked in order. -/
def inOrder {n : Nat} (hn : 0 < n) : DLinks (Fin n) where
  next x := if h : x.val + 1 < n then some ⟨x.val + 1, h⟩ else none
  prev x := if x.val = 0 then none else some ⟨x.val - 1, by omega⟩
  front := some ⟨0, hn⟩
  rear := some ⟨n - 1, by omega⟩

/-- The entries from the `i`th on. -/
theorem seg_inOrder {n : Nat} (hn : 0 < n) {k : Nat} :
    ∀ i (_ : i + k = n), (inOrder hn).Seg (if _ : i = 0 then none else some ⟨i - 1, by omega⟩)
      ((List.finRange n).drop i) := by
  induction k with
  | zero =>
    intro i hi
    obtain rfl : i = n := hi
    rw [drop_eq_nil_of_le (by simp), dif_neg (by omega)]
    rfl
  | succ k ih =>
    intro i hi
    have hlt : i < n := by omega
    rw [finRange_drop hlt]
    refine ⟨rfl, ?_, ?_⟩
    · rw [finRange_drop_head]
      rfl
    · have hrest := ih (i + 1) (by omega)
      exact hrest

theorem holds_inOrder {n : Nat} (hn : 0 < n) : (inOrder hn).Holds (List.finRange n) where
  front := by
    have hhead := finRange_drop_head n 0
    rw [drop_zero, dif_pos hn] at hhead
    exact hhead.symm
  seg := seg_inOrder hn 0 (Nat.zero_add n)
  nodup := nodup_finRange n

variable [DecidableEq N]

/-- A node is removed by its links. -/
def remove (d : DLinks N) (n : N) : DLinks N where
  next := match d.prev n with
    | some p => update d.next p (d.next n)
    | none => d.next
  prev := match d.next n with
    | some q => update d.prev q (d.prev n)
    | none => d.prev
  front := match d.prev n with
    | some _ => d.front
    | none => d.next n
  rear := match d.next n with
    | some _ => d.rear
    | none => d.prev n

/-- A node is put at the front. -/
def pushFront (d : DLinks N) (n : N) : DLinks N where
  next := update d.next n d.front
  prev := match d.front with
    | some f => update (update d.prev n none) f (some n)
    | none => update d.prev n none
  front := some n
  rear := match d.front with
    | some _ => d.rear
    | none => some n

/-- A node is put at the rear. -/
def pushBack (d : DLinks N) (n : N) : DLinks N where
  next := match d.rear with
    | some r => update (update d.next n none) r (some n)
    | none => update d.next n none
  prev := update d.prev n d.rear
  front := match d.rear with
    | some _ => d.front
    | none => some n
  rear := some n

theorem remove_next (d : DLinks N) (n x : N) :
    (d.remove n).next x = if d.prev n = some x then d.next n else d.next x := by
  unfold remove
  cases hprev : d.prev n with
  | none => simp
  | some p =>
    by_cases hx : x = p
    · subst hx
      simp
    · simp [hx, Ne.symm hx]

theorem remove_prev (d : DLinks N) (n x : N) :
    (d.remove n).prev x = if d.next n = some x then d.prev n else d.prev x := by
  unfold remove
  cases hnext : d.next n with
  | none => simp
  | some q =>
    by_cases hx : x = q
    · subst hx
      simp
    · simp [hx, Ne.symm hx]

/-- Removing a node from a segment.  The node before the segment is not on it. -/
theorem Seg.remove {d : DLinks N} {p : Option N} {a b : List N} {n : N} (h : d.Seg p (a ++ n :: b))
    (hnodup : (a ++ n :: b).Nodup) (hp : ∀ x ∈ a ++ n :: b, p ≠ some x) :
    (d.remove n).Seg p (a ++ b) := by
  obtain ⟨hprev, hnext, htail⟩ := h.links
  induction a generalizing p with
  | nil =>
    have hprev : d.prev n = p := by simpa using hprev
    cases b with
    | nil =>
      have hnone : d.next n = none := hnext
      simp only [DLinks.remove, hnone]
      exact hprev
    | cons q b =>
      have hnq : d.next n = some q := hnext
      refine ⟨by rw [remove_prev, if_pos hnq, hprev], ?_, ?_⟩
      · rw [remove_next, if_neg (by rw [hprev]; exact hp q (by simp))]
        exact htail.2.1
      refine htail.2.2.congr ?_ ?_ ?_
      · intro x hx
        rw [remove_next, if_neg (by rw [hprev]; exact hp x (by simp [hx]))]
      · intro x hx
        rw [remove_prev, if_neg]
        rw [hnq]
        intro heq
        obtain rfl := Option.some.inj heq
        simp [nodup_cons, hx] at hnodup
      · simp [DLinks.remove, hnq]
  | cons m a ih =>
    have hm : m ∉ a ++ n :: b := (nodup_cons.mp hnodup).1
    have hprevEq := h.2.2.links.1
    refine ⟨?_, ?_, ?_⟩
    · rw [remove_prev, if_neg]
      · exact h.1
      · rw [hnext]
        intro heq
        exact hm (mem_append_right _ (mem_cons_of_mem _ (mem_of_mem_head? heq)))
    · rw [remove_next]
      cases a with
      | nil =>
        have hpm : d.prev n = some m := by simpa using hprevEq
        rw [if_pos hpm, hnext]
        rfl
      | cons x a =>
        rw [if_neg]
        · exact h.2.1
        rw [hprevEq]
        intro heq
        exact hm (mem_append_left _ (Option.some.inj heq ▸ getLast_mem _))
    · refine ih h.2.2 (nodup_cons.mp hnodup).2 ?_ hprevEq
      intro x hx heq
      obtain rfl := Option.some.inj heq
      exact hm hx

theorem Holds.remove {d : DLinks N} {a b : List N} {n : N} (h : d.Holds (a ++ n :: b)) :
    (d.remove n).Holds (a ++ b) := by
  obtain ⟨hprev, hnext, _⟩ := h.seg.links
  refine ⟨?_, h.seg.remove h.nodup (by simp), ?_⟩
  · unfold DLinks.remove
    cases a with
    | nil =>
      have hnone : d.prev n = none := by simpa using hprev
      simp only [hnone]
      exact hnext
    | cons m a =>
      obtain ⟨y, hy⟩ : ∃ y, d.prev n = some y := by
        rw [hprev, getLast?_eq_some_getLast (by simp)]
        exact ⟨_, rfl⟩
      simp only [hy]
      exact h.front
  · have hnodup := h.nodup
    rw [nodup_append, nodup_cons] at hnodup
    rw [nodup_append]
    exact ⟨hnodup.1, hnodup.2.1.2, fun x hx y hy => hnodup.2.2 x hx y (mem_cons_of_mem _ hy)⟩

theorem Holds.pushFront {d : DLinks N} {l : List N} {n : N} (h : d.Holds l) (hn : n ∉ l) :
    (d.pushFront n).Holds (n :: l) := by
  have hfront := h.front
  refine ⟨rfl, ?_, nodup_cons.mpr ⟨hn, h.nodup⟩⟩
  cases l with
  | nil =>
    have hnone : d.front = none := hfront
    simp [Seg, DLinks.pushFront, hnone]
  | cons f l =>
    have hsome : d.front = some f := hfront
    have hnf : n ≠ f := fun heq => hn (by simp [heq])
    have hne : ∀ x ∈ l, x ≠ n := fun x hx heq => hn (by simp [← heq, hx])
    have hfl : f ∉ l := (nodup_cons.mp h.nodup).1
    have hseg := h.seg
    refine ⟨?_, ?_, ?_, ?_, ?_⟩
    · simp [DLinks.pushFront, hsome, hnf]
    · simp [DLinks.pushFront, hsome]
    · simp [DLinks.pushFront, hsome]
    · simp only [DLinks.pushFront]
      rw [update_of_ne hnf.symm]
      exact hseg.2.1
    · refine hseg.2.2.congr ?_ ?_ ?_
      · intro x hx
        simp only [DLinks.pushFront]
        rw [update_of_ne (hne x hx)]
      · intro x hx
        have hxf : x ≠ f := fun heq => hfl (heq ▸ hx)
        simp [DLinks.pushFront, hsome, hxf, hne x hx]
      · simp [DLinks.pushFront, hsome]

/-- The rest of the links when a node is put behind the last of a segment. -/
theorem Seg.pushBack {d : DLinks N} {p : Option N} {l : List N} {n r : N} (h : d.Seg p l) (hn : n ∉ l)
    (hnodup : l.Nodup) (hrear : l.getLast? = some r) (hd : d.rear = some r) :
    (d.pushBack n).Seg p (l ++ [n]) := by
  induction l generalizing p with
  | nil => simp at hrear
  | cons m l ih =>
    have hmn : m ≠ n := fun heq => hn (by simp [heq])
    refine ⟨?_, ?_, ?_⟩
    · simp only [DLinks.pushBack]
      rw [update_of_ne hmn]
      exact h.1
    · cases l with
      | nil =>
        obtain rfl : m = r := by simpa using hrear
        simp [DLinks.pushBack, hd]
      | cons x l =>
        have hmr : m ≠ r := by
          rintro rfl
          refine (nodup_cons.mp hnodup).1 (mem_of_getLast? ?_)
          exact hrear
        simp only [DLinks.pushBack, hd]
        rw [update_of_ne hmr, update_of_ne hmn]
        exact h.2.1
    · cases l with
      | nil =>
        obtain rfl : m = r := by simpa using hrear
        have hrn : n ≠ m := hmn.symm
        refine ⟨?_, ?_, ?_⟩
        · simp [DLinks.pushBack, hd]
        · simp [DLinks.pushBack, hd, hrn]
        · simp [Seg, DLinks.pushBack]
      | cons x l =>
        refine ih h.2.2 (fun hm => hn (mem_cons_of_mem _ hm)) (nodup_cons.mp hnodup).2 ?_
        exact hrear

theorem Holds.pushBack {d : DLinks N} {l : List N} {n : N} (h : d.Holds l) (hn : n ∉ l) :
    (d.pushBack n).Holds (l ++ [n]) := by
  have hrear : d.rear = l.getLast? := by rw [h.seg.rear_eq, Option.or_none]
  have hnodup : (l ++ [n]).Nodup := by
    rw [nodup_append]
    refine ⟨h.nodup, nodup_singleton n, ?_⟩
    intro x hx y hy heq
    obtain rfl := mem_singleton.mp hy
    exact hn (heq ▸ hx)
  cases hlast : l.getLast? with
  | none =>
    obtain rfl := getLast?_eq_none_iff.mp hlast
    refine ⟨?_, ?_, hnodup⟩
    · simp [DLinks.pushBack, hrear]
    · simp [Seg, DLinks.pushBack, hrear]
  | some r =>
    rw [hlast] at hrear
    refine ⟨?_, h.seg.pushBack hn h.nodup hlast hrear, hnodup⟩
    have hfront := h.front
    cases l with
    | nil => simp at hlast
    | cons m l => simpa [DLinks.pushBack, hrear] using hfront

end DLinks

end Minix.Foundation
