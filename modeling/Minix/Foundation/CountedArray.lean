/-
  Foundation/CountedArray.lean --- an allocated array with its count kept beside it.

  The array is a block of cells that may be longer than the count, or no block at all.  A
  cell that nothing has been written to holds no value.  Operations that read such a cell,
  leave the block or move a negative number of cells have no result.  `Holds a l` says that
  the first `count` cells hold the list `l`.
-/
import Mathlib.Data.List.Basic

set_option autoImplicit false

open List

namespace Minix.Foundation

/-- A block of cells and the number of cells in use. -/
structure CountedArray (α : Type) where
  count : Nat
  block : Option (List (Option α))
deriving DecidableEq, Repr

namespace CountedArray

variable {α : Type}

/-- No block. -/
def empty : CountedArray α := ⟨0, none⟩

/-- The value of a cell of the block. -/
def get (a : CountedArray α) (k : Nat) : Option α :=
  a.block.bind fun b => (b[k]?).join

/-- Move the cells above `k` down by one and take one off the count. -/
def remove (a : CountedArray α) (k : Nat) : Option (CountedArray α) :=
  match a.block with
  | none => none
  | some b =>
      if k < a.count ∧ a.count ≤ b.length then
        some ⟨a.count - 1, some (b.take k ++ (b.drop (k + 1)).take (a.count - k - 1) ++ b.drop (a.count - 1))⟩
      else none

/-- Change the size of a block. -/
def resize (b : List (Option α)) (n : Nat) : List (Option α) :=
  b.take n ++ List.replicate (n - b.length) none

/-- Add one to the count, change the size of the block to it and write the last cell.  Without
memory the block is lost and the count stays.  The count is below `limit`. -/
def push (limit : Nat) (alloc : Bool) (a : CountedArray α) (x : α) : Option (CountedArray α × Bool) :=
  if a.count + 1 < limit then
    if alloc then some (⟨a.count + 1, some ((resize (a.block.getD []) (a.count + 1)).set a.count (some x))⟩, true)
    else some (⟨a.count + 1, none⟩, false)
  else none

/-- The first of the `n` cells from `k` on with the property, when all cells up to it can be read. -/
def search (a : CountedArray α) (p : α → Bool) : Nat → Nat → Option (Option Nat)
  | _, 0 => some none
  | k, n + 1 =>
      match a.get k with
      | none => none
      | some x => if p x then some (some k) else a.search p (k + 1) n

/-- The values of the `n` cells from `k` on, when all of them can be read. -/
def read (a : CountedArray α) : Nat → Nat → Option (List α)
  | _, 0 => some []
  | k, n + 1 => (a.get k).bind fun x => (a.read (k + 1) n).map (x :: ·)

/-- The cells in use hold the list. -/
structure Holds (a : CountedArray α) (l : List α) : Prop where
  count : a.count = l.length
  cells : (a.block.getD []).take l.length = l.map some

variable {a : CountedArray α} {l : List α}

theorem holds_empty : (empty : CountedArray α).Holds [] := ⟨rfl, rfl⟩

section

variable (h : a.Holds l)
include h

theorem Holds.length_le : l.length ≤ (a.block.getD []).length := by
  have hlen := congrArg length h.cells
  simp only [length_take, length_map] at hlen
  omega

/-- A cell in use is read. -/
theorem Holds.get {k : Nat} (hk : k < l.length) : a.get k = l[k]? := by
  obtain ⟨n, b⟩ := a
  have hcell : (b.getD [])[k]? = some l[k]? := by
    have htake := congrArg (fun cells : List (Option α) => cells[k]?) h.cells
    simp only [getElem?_take, hk, if_true, getElem?_map, getElem?_eq_getElem] at htake ⊢
    exact htake
  unfold get
  cases b with
  | none => simp at hcell
  | some b => simpa using congrArg Option.join hcell

/-- A block with something in use is there. -/
theorem Holds.block_of_pos (hpos : 0 < l.length) : ∃ b, a.block = some b := by
  have hlen := h.length_le
  cases hb : a.block with
  | none =>
    rw [hb] at hlen
    simp only [Option.getD_none, length_nil] at hlen
    omega
  | some b => exact ⟨b, rfl⟩

/-- Removing a cell in use. -/
theorem Holds.remove {k : Nat} (hk : k < l.length) :
    ∃ a', a.remove k = some a' ∧ a'.Holds (l.eraseIdx k) := by
  obtain ⟨b, hb⟩ := h.block_of_pos (by omega)
  have hlen := h.length_le
  have hcells := h.cells
  rw [hb, Option.getD_some] at hlen hcells
  unfold CountedArray.remove
  rw [hb]
  simp only []
  rw [if_pos ⟨h.count ▸ hk, h.count ▸ hlen⟩]
  refine ⟨_, rfl, ?_, ?_⟩
  · simp only [length_eraseIdx, if_pos hk, h.count]
  -- The cells in use before are known; the moved ones are a part of them.
  have hsplit : b = l.map some ++ b.drop l.length := by rw [← hcells, take_append_drop]
  have hmoved : (b.drop (k + 1)).take (l.length - k - 1) = (l.drop (k + 1)).map some := by
    rw [hsplit, drop_append_of_le_length (by simp; omega), take_append_of_le_length (by simp; omega)]
    rw [← map_drop, take_of_length_le (by simp; omega)]
  have hbefore : b.take k = (l.take k).map some := by
    rw [hsplit, take_append_of_le_length (by simp; omega), map_take]
  simp only [Option.getD_some, h.count, hmoved, hbefore, ← map_append, length_eraseIdx, if_pos hk]
  rw [take_append_of_le_length (by simp; omega), take_of_length_le (by simp; omega), eraseIdx_eq_take_drop_succ]

theorem Holds.search_from {p : α → Bool} {n k : Nat} (hk : k + n = l.length) :
    a.search p k n = some (((l.drop k).findIdx? p).map (· + k)) := by
  induction n generalizing k with
  | zero => rw [search, drop_eq_nil_of_le (by omega), findIdx?_nil, Option.map_none]
  | succ n ih =>
    have hlt : k < l.length := by omega
    rw [search, h.get hlt, getElem?_eq_getElem hlt, drop_eq_getElem_cons hlt, findIdx?_cons]
    simp only []
    split
    · simp
    · rw [ih (by omega), Option.map_map]
      refine congrArg some (Option.map_congr fun i _ => ?_)
      simp only [Function.comp_apply]
      omega

/-- A search through the cells in use finds the first such value of the list. -/
theorem Holds.search (p : α → Bool) : a.search p 0 a.count = some (l.findIdx? p) := by
  rw [h.search_from (by rw [h.count]; omega)]
  simp

theorem Holds.read_from {n k : Nat} (hk : k + n = l.length) : a.read k n = some (l.drop k) := by
  induction n generalizing k with
  | zero => rw [read, drop_eq_nil_of_le (by omega)]
  | succ n ih =>
    have hlt : k < l.length := by omega
    rw [read, h.get hlt, getElem?_eq_getElem hlt, Option.bind_some, ih (by omega), drop_eq_getElem_cons hlt]
    rfl

/-- Reading the cells in use gives the list. -/
theorem Holds.read : a.read 0 a.count = some l := by
  rw [h.read_from (by rw [h.count]; omega), drop_zero]

end

/-- Removing never works beyond the count. -/
theorem remove_eq_none {k : Nat} (hk : a.count ≤ k) : a.remove k = none := by
  unfold remove
  cases a.block with
  | none => rfl
  | some b => exact if_neg (by omega)

/-- Adding a value at the end. -/
theorem Holds.push (h : a.Holds l) {limit : Nat} (hlimit : l.length + 1 < limit) (x : α) :
    ∃ a', a.push limit true x = some (a', true) ∧ a'.Holds (l ++ [x]) := by
  unfold CountedArray.push
  rw [if_pos (h.count ▸ hlimit), if_pos rfl]
  refine ⟨_, rfl, by simp [h.count], ?_⟩
  have hlen := h.length_le
  have hcells := h.cells
  simp only [Option.getD_some, h.count, resize]
  generalize a.block.getD [] = b at hlen hcells
  have hsize : (b.take (l.length + 1) ++ replicate (l.length + 1 - b.length) (none : Option α)).length = l.length + 1 := by
    simp only [length_append, length_take, length_replicate]
    omega
  rw [take_of_length_le (by simp only [length_set, hsize, length_append, length_singleton]; omega)]
  refine ext_getElem? fun i => ?_
  rw [getElem?_set]
  by_cases hi : l.length = i
  · subst hi
    simp [hsize]
  rw [if_neg hi]
  have hprev : (b.take (l.length + 1))[i]? = (b.take (l.length + 1) ++ replicate (l.length + 1 - b.length) (none : Option α))[i]? ∨
      l.length < i := by
    by_cases hlt : i < l.length
    · exact .inl (by rw [getElem?_append_left (by simp only [length_take]; omega)])
    · exact .inr (by omega)
  rcases hprev with hprev | hbig
  · rw [← hprev, map_append, getElem?_take]
    by_cases hlt : i < l.length
    · rw [if_pos (by omega), getElem?_append_left (by simpa using hlt), ← hcells, getElem?_take, if_pos hlt]
    · rw [if_neg (by omega), getElem?_eq_none (by simp; omega)]
  · rw [getElem?_eq_none (by rw [hsize]; omega), getElem?_eq_none (by simp; omega)]

end CountedArray

end Minix.Foundation
