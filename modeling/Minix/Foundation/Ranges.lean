/-
  Foundation/Ranges.lean --- sets of numbers as sorted lists of ranges.

  An allocator keeps what is free as ranges in ascending order.  `Separated` says that the
  ranges are not empty, sorted, disjoint and coalesced: between two of them there is always
  a number that is in neither.  The operations are those of an ordered map from the start of
  a range to the range; the lemmas say what they do to a list that is cut at the place where
  they act.
-/
import Mathlib.Data.Finset.Basic
import Mathlib.Data.Finset.Union
import Mathlib.Order.Interval.Finset.Nat

set_option autoImplicit false

open List

namespace Minix.Foundation

/-- The numbers from `base` on, `size` of them. -/
structure Range where
  base : Nat
  size : Nat
  deriving DecidableEq, Repr

namespace Range

/-- The first number after the range. -/
def limit (r : Range) : Nat := r.base + r.size

/-- The numbers in the range. -/
def numbers (r : Range) : Finset Nat := Finset.Ico r.base r.limit

@[simp] theorem mem_numbers {r : Range} {x : Nat} : x ∈ r.numbers ↔ r.base ≤ x ∧ x < r.limit :=
  Finset.mem_Ico

/-- Two ranges that meet. -/
theorem numbers_add (base m n : Nat) : numbers ⟨base, m + n⟩ = numbers ⟨base, m⟩ ∪ numbers ⟨base + m, n⟩ := by
  unfold numbers limit
  rw [Finset.Ico_union_Ico_eq_Ico (Nat.le_add_right ..) (Nat.le_add_right ..), Nat.add_assoc]

end Range

/-- The numbers in the ranges of a list. -/
def cover (l : List Range) : Finset Nat := l.toFinset.biUnion Range.numbers

theorem mem_cover {l : List Range} {x : Nat} : x ∈ cover l ↔ ∃ r ∈ l, r.base ≤ x ∧ x < r.limit := by
  simp [cover]

@[simp] theorem cover_nil : cover [] = ∅ := rfl

@[simp] theorem cover_cons (r : Range) (l : List Range) : cover (r :: l) = r.numbers ∪ cover l := by
  simp [cover]

@[simp] theorem cover_append (l l' : List Range) : cover (l ++ l') = cover l ∪ cover l' := by
  induction l with
  | nil => simp
  | cons r l ih => rw [cons_append, cover_cons, ih, cover_cons, Finset.union_assoc]

/-- Not empty, in ascending order, and apart from each other. -/
structure Separated (l : List Range) : Prop where
  apart : l.Pairwise fun a b => a.limit < b.base
  pos : ∀ r ∈ l, 0 < r.size

namespace Separated

variable {l lo hi : List Range} {r : Range}

theorem nil : Separated [] := ⟨Pairwise.nil, by simp⟩

theorem append_iff :
    Separated (lo ++ hi) ↔ Separated lo ∧ Separated hi ∧ ∀ a ∈ lo, ∀ b ∈ hi, a.limit < b.base := by
  constructor
  · intro h
    obtain ⟨hlo, hhi, hapart⟩ := pairwise_append.mp h.apart
    exact ⟨⟨hlo, fun r hr => h.pos r (by simp [hr])⟩, ⟨hhi, fun r hr => h.pos r (by simp [hr])⟩, hapart⟩
  · rintro ⟨hlo, hhi, hapart⟩
    refine ⟨pairwise_append.mpr ⟨hlo.apart, hhi.apart, hapart⟩, ?_⟩
    intro r hr
    rcases mem_append.mp hr with hr | hr
    · exact hlo.pos r hr
    · exact hhi.pos r hr

theorem cons_iff : Separated (r :: l) ↔ 0 < r.size ∧ Separated l ∧ ∀ b ∈ l, r.limit < b.base := by
  constructor
  · intro h
    obtain ⟨hr, hl⟩ := pairwise_cons.mp h.apart
    exact ⟨h.pos r (by simp), ⟨hl, fun x hx => h.pos x (by simp [hx])⟩, hr⟩
  · rintro ⟨hpos, hl, hr⟩
    refine ⟨pairwise_cons.mpr ⟨hr, hl.apart⟩, ?_⟩
    intro x hx
    rcases mem_cons.mp hx with rfl | hx
    · exact hpos
    · exact hl.pos x hx

/-- What stands around a range of the list. -/
theorem middle (h : Separated (lo ++ r :: hi)) :
    Separated lo ∧ 0 < r.size ∧ Separated hi ∧ (∀ a ∈ lo, a.limit < r.base) ∧
      (∀ b ∈ hi, r.limit < b.base) ∧ ∀ a ∈ lo, ∀ b ∈ hi, a.limit < b.base := by
  obtain ⟨hlo, hrhi, hapart⟩ := append_iff.mp h
  obtain ⟨hpos, hhi, hr⟩ := cons_iff.mp hrhi
  exact ⟨hlo, hpos, hhi, fun a ha => hapart a ha r (by simp), hr,
    fun a ha b hb => hapart a ha b (by simp [hb])⟩

theorem of_middle (hlo : Separated lo) (hpos : 0 < r.size) (hhi : Separated hi)
    (hbelow : ∀ a ∈ lo, a.limit < r.base) (habove : ∀ b ∈ hi, r.limit < b.base) : Separated (lo ++ r :: hi) := by
  refine append_iff.mpr ⟨hlo, cons_iff.mpr ⟨hpos, hhi, habove⟩, fun a ha b hb => ?_⟩
  have hlt := hbelow a ha
  rcases mem_cons.mp hb with rfl | hb
  · exact hlt
  · have := habove b hb
    unfold Range.limit at *
    omega

theorem bases (h : Separated (lo ++ r :: hi)) : (∀ a ∈ lo, a.base < r.base) ∧ ∀ b ∈ hi, r.base < b.base := by
  obtain ⟨-, -, -, hbelow, habove, -⟩ := h.middle
  unfold Range.limit at hbelow habove
  refine ⟨fun a ha => ?_, fun b hb => ?_⟩
  · have := hbelow a ha
    omega
  · have := habove b hb
    omega

/-- A block that is in no range has the ranges below it and the ranges above it. -/
theorem split_at {base size : Nat} (h : Separated l) (hsize : 0 < size)
    (hfree : Disjoint (Finset.Ico base (base + size)) (cover l)) :
    ∃ lo hi, l = lo ++ hi ∧ (∀ a ∈ lo, a.limit ≤ base) ∧ ∀ b ∈ hi, base + size ≤ b.base := by
  induction l with
  | nil => exact ⟨[], [], rfl, by simp, by simp⟩
  | cons r l ih =>
    obtain ⟨hpos, hl, hr⟩ := cons_iff.mp h
    rw [cover_cons, Finset.disjoint_union_right] at hfree
    obtain ⟨hfreeR, hfreeL⟩ := hfree
    by_cases hbelow : r.limit ≤ base
    · obtain ⟨lo, hi, rfl, hlo, hhi⟩ := ih hl hfreeL
      refine ⟨r :: lo, hi, rfl, ?_, hhi⟩
      intro a ha
      rcases mem_cons.mp ha with rfl | ha
      · exact hbelow
      · exact hlo a ha
    · -- The range does not end below the block, so it starts above it.
      have habove : base + size ≤ r.base := by
        by_contra hlt
        have hboth : max base r.base ∈ Finset.Ico base (base + size) := by
          rw [Finset.mem_Ico]
          omega
        refine Finset.disjoint_left.mp hfreeR hboth ?_
        rw [Range.mem_numbers]
        unfold Range.limit at hbelow ⊢
        omega
      refine ⟨[], r :: l, rfl, by simp, ?_⟩
      intro b hb
      rcases mem_cons.mp hb with rfl | hb
      · exact habove
      · have hrb := hr b hb
        unfold Range.limit at hrb
        omega

/-- A block of covered numbers lies in one range. -/
theorem block {base size : Nat} (h : Separated l) (hsize : 0 < size) (hsub : Finset.Ico base (base + size) ⊆ cover l) :
    ∃ r ∈ l, r.base ≤ base ∧ base + size ≤ r.limit := by
  have hcov : ∀ x, base ≤ x → x < base + size → ∃ r ∈ l, r.base ≤ x ∧ x < r.limit := fun x hx hx' =>
    mem_cover.mp (hsub (Finset.mem_Ico.mpr ⟨hx, hx'⟩))
  obtain ⟨r, hr, hbase, hlimit⟩ := hcov base (Nat.le_refl _) (by omega)
  refine ⟨r, hr, hbase, ?_⟩
  by_contra hlt
  -- The number after the range is in another one.
  obtain ⟨r', hr', hbase', hlimit'⟩ := hcov r.limit (by omega) (by omega)
  obtain ⟨lo, hi, rfl⟩ := append_of_mem hr
  obtain ⟨-, -, -, hlo, hhi, -⟩ := h.middle
  rcases mem_append.mp hr' with hr' | hr'
  · have := hlo r' hr'
    unfold Range.limit at *
    omega
  rcases mem_cons.mp hr' with rfl | hr'
  · omega
  · have := hhi r' hr'
    omega

end Separated

/-! ## The operations of the map -/

/-- The range that starts at `k`. -/
def search (l : List Range) (k : Nat) : Option Range := l.find? fun r => r.base == k

def insertRange (l : List Range) (r : Range) : List Range :=
  l.takeWhile (fun a => a.base < r.base) ++ r :: l.dropWhile fun a => a.base < r.base

/-- The range that starts at `k` goes. -/
def removeRange (l : List Range) (k : Nat) : List Range := l.filter fun r => r.base != k

/-- The range that starts at `k` is changed in place. -/
def modifyRange (l : List Range) (k : Nat) (f : Range → Range) : List Range :=
  l.map fun r => if r.base = k then f r else r

/-- The last range that starts below `k`. -/
def rangeBelow (l : List Range) (k : Nat) : Option Range :=
  (l.takeWhile fun a => a.base < k).getLast?

section Map

variable {lo hi : List Range} {r : Range} {k : Nat}

theorem takeWhile_below (hlo : ∀ a ∈ lo, a.base < k) (hhi : ∀ b ∈ hi, k ≤ b.base) :
    (lo ++ hi).takeWhile (fun a => a.base < k) = lo := by
  rw [takeWhile_append_of_pos (by simpa using hlo)]
  cases hi with
  | nil => simp
  | cons b hi =>
    have hb := hhi b (by simp)
    simp [hb]

theorem dropWhile_below (hlo : ∀ a ∈ lo, a.base < k) (hhi : ∀ b ∈ hi, k ≤ b.base) :
    (lo ++ hi).dropWhile (fun a => a.base < k) = hi := by
  rw [dropWhile_append_of_pos (by simpa using hlo)]
  cases hi with
  | nil => simp
  | cons b hi =>
    have hb := hhi b (by simp)
    simp [hb]

theorem insertRange_middle (hlo : ∀ a ∈ lo, a.base < r.base) (hhi : ∀ b ∈ hi, r.base ≤ b.base) :
    insertRange (lo ++ hi) r = lo ++ r :: hi := by
  rw [insertRange, takeWhile_below hlo hhi, dropWhile_below hlo hhi]

theorem removeRange_middle (hlo : ∀ a ∈ lo, a.base < r.base) (hhi : ∀ b ∈ hi, r.base < b.base) :
    removeRange (lo ++ r :: hi) r.base = lo ++ hi := by
  have hkeepLo : lo.filter (fun a => a.base != r.base) = lo := by
    rw [filter_eq_self]
    intro a ha
    have := hlo a ha
    simp only [bne_iff_ne]
    omega
  have hkeepHi : hi.filter (fun a => a.base != r.base) = hi := by
    rw [filter_eq_self]
    intro b hb
    have := hhi b hb
    simp only [bne_iff_ne]
    omega
  rw [removeRange, filter_append, hkeepLo, filter_cons_of_neg (by simp), hkeepHi]

theorem modifyRange_middle {f : Range → Range} (hlo : ∀ a ∈ lo, a.base < r.base)
    (hhi : ∀ b ∈ hi, r.base < b.base) :
    modifyRange (lo ++ r :: hi) r.base f = lo ++ f r :: hi := by
  have hkeep : ∀ l : List Range, (∀ a ∈ l, a.base ≠ r.base) →
      l.map (fun a => if a.base = r.base then f a else a) = l := by
    intro l hl
    conv_rhs => rw [← map_id l]
    refine map_congr_left ?_
    intro a ha
    simp [hl a ha]
  rw [modifyRange, map_append, map_cons, if_pos rfl,
    hkeep lo fun a ha => Nat.ne_of_lt (hlo a ha), hkeep hi fun b hb => Nat.ne_of_gt (hhi b hb)]

end Map

end Minix.Foundation
