/-
  Foundation/FlagWord.lean --- words used as sets of flags.

  A flag word is a bit vector whose bits are tested, set and cleared with masks:
  `x & m`, `x |= m`, `x &= ~m`.  The test used throughout is "every bit of the
  mask is set", `(x & m) == m`.

  A mask is compared with another one through `m &&& n = 0#w` (the masks share no
  bit).  For constant masks these side conditions are decided by evaluation, so
  the lemmas below rewrite a test of one flag past updates of other flags.
-/
import Mathlib.Data.BitVec

set_option autoImplicit false

open BitVec

namespace Minix.Foundation

variable {w : Nat}

/-- Every bit of the mask `m` is set in `x`. -/
def isSet (x m : BitVec w) : Bool := x &&& m == m

/-- The word `x` with the bits of `m` cleared: `x & ~m`. -/
def clearBits (x m : BitVec w) : BitVec w := x &&& ~~~m

/-! ## Bit level readings -/

theorem isSet_iff {x m : BitVec w} :
    isSet x m = true ↔ ∀ i, m.getLsbD i = true → x.getLsbD i = true := by
  simp only [isSet, beq_iff_eq]
  constructor
  · intro h i hi
    have hbit := congrArg (fun y => y.getLsbD i) h
    simpa [hi] using hbit
  · intro h
    apply eq_of_getLsbD_eq
    intro i _
    cases hm : m.getLsbD i with
    | false => simp [hm]
    | true => simp [hm, h i hm]

/-- Two masks that share no bit, read bit by bit. -/
theorem disjoint_getLsbD {m n : BitVec w} (h : m &&& n = 0#w) {i : Nat}
    (hm : m.getLsbD i = true) : n.getLsbD i = false := by
  have hbit := congrArg (fun y => y.getLsbD i) h
  simpa [hm] using hbit

theorem exists_getLsbD_of_ne_zero {m : BitVec w} (h : m ≠ 0#w) :
    ∃ i, m.getLsbD i = true := by
  by_contra hnone
  apply h
  apply eq_of_getLsbD_eq
  intro i _
  simpa using fun hi => hnone ⟨i, hi⟩

/-- A part of a mask shares no bit with what the whole mask shares no bit with. -/
theorem disjoint_of_isSet {m n f : BitVec w} (h : isSet n m = true) (hd : n &&& f = 0#w) :
    m &&& f = 0#w := by
  apply eq_of_getLsbD_eq
  intro i _
  cases hm : m.getLsbD i with
  | false => simp [hm]
  | true => simp [disjoint_getLsbD hd (isSet_iff.mp h i hm)]

/-! ## Testing after an update -/

theorem isSet_or_self (x m : BitVec w) : isSet (x ||| m) m = true := by
  rw [isSet_iff]
  intro i hi
  simp [hi]

/-- Setting some flags does not change the test of flags outside the mask. -/
theorem isSet_or_of_disjoint {x : BitVec w} {m n : BitVec w} (h : m &&& n = 0#w) :
    isSet (x ||| n) m = isSet x m := by
  rw [Bool.eq_iff_iff, isSet_iff, isSet_iff]
  refine forall_congr' fun i => imp_congr_right fun hi => ?_
  simp [disjoint_getLsbD h hi]

/-- Setting flags never clears one. -/
theorem isSet_or_of_isSet {x m : BitVec w} (n : BitVec w) (h : isSet x m = true) :
    isSet (x ||| n) m = true := by
  rw [isSet_iff] at h ⊢
  intro i hi
  simp [h i hi]

/-- A flag of the mask is not set after a clearing. -/
theorem isSet_clearBits_of_isSet {x : BitVec w} {m f : BitVec w} (hf : f ≠ 0#w)
    (h : isSet m f = true) : isSet (clearBits x m) f = false := by
  obtain ⟨i, hi⟩ := exists_getLsbD_of_ne_zero hf
  have hm := isSet_iff.mp h i hi
  by_contra hset
  have hbit := isSet_iff.mp (by simpa using hset) i hi
  simp [clearBits, hm] at hbit

theorem isSet_clearBits_self {x : BitVec w} {m : BitVec w} (h : m ≠ 0#w) :
    isSet (clearBits x m) m = false :=
  isSet_clearBits_of_isSet h (isSet_iff.mpr fun _ hi => hi)

/-- Clearing some flags does not change the test of flags outside the mask. -/
theorem isSet_clearBits_of_disjoint {x : BitVec w} {m n : BitVec w} (h : m &&& n = 0#w) :
    isSet (clearBits x n) m = isSet x m := by
  rw [Bool.eq_iff_iff, isSet_iff, isSet_iff]
  refine forall_congr' fun i => imp_congr_right fun hi => ?_
  have hn := disjoint_getLsbD h hi
  have hlt : i < w := lt_of_getLsbD hi
  simp only [clearBits, getLsbD_and, getLsbD_not, hn, hlt, decide_true,
    Bool.not_false, Bool.and_true]

/-- A flag that is set after a clearing was set before it. -/
theorem isSet_of_isSet_clearBits {x m n : BitVec w} (h : isSet (clearBits x n) m = true) :
    isSet x m = true := by
  rw [isSet_iff] at h ⊢
  intro i hi
  have hbit := h i hi
  simp only [clearBits, getLsbD_and, Bool.and_eq_true] at hbit
  exact hbit.1

/-! ## The empty word -/

theorem isSet_zero {m : BitVec w} (h : m ≠ 0#w) : isSet (0#w) m = false := by
  obtain ⟨i, hi⟩ := exists_getLsbD_of_ne_zero h
  by_contra hset
  have hbit := isSet_iff.mp (by simpa using hset) i hi
  simp at hbit

theorem ne_zero_of_isSet {x m : BitVec w} (h : m ≠ 0#w) (hset : isSet x m = true) :
    x ≠ 0#w := by
  intro hx
  rw [hx, isSet_zero h] at hset
  exact Bool.false_ne_true hset

theorem or_ne_zero {x : BitVec w} {m : BitVec w} (h : m ≠ 0#w) : x ||| m ≠ 0#w :=
  ne_zero_of_isSet h (isSet_or_self x m)

@[simp] theorem clearBits_zero (m : BitVec w) : clearBits (0#w) m = 0#w := by
  simp [clearBits]

/-- Clearing a flag that is not part of the word changes nothing. -/
theorem clearBits_eq_self {x m : BitVec w} (h : x &&& m = 0#w) : clearBits x m = x := by
  apply eq_of_getLsbD_eq
  intro i hlt
  cases hx : x.getLsbD i with
  | false => simp [clearBits, hx]
  | true =>
    simp only [clearBits, getLsbD_and, getLsbD_not, hx,
      disjoint_getLsbD h hx, hlt, decide_true, Bool.not_false, Bool.and_true]

/-- Clearing a part of a mask first makes no difference. -/
theorem clearBits_clearBits_of_isSet {x : BitVec w} {mask f : BitVec w}
    (hf : isSet mask f = true) : clearBits (clearBits x f) mask = clearBits x mask := by
  apply eq_of_getLsbD_eq
  intro i hi
  have hbit := isSet_iff.mp hf i
  simp only [clearBits, getLsbD_and, getLsbD_not, hi, decide_true, Bool.true_and]
  cases hfi : f.getLsbD i with
  | false => simp
  | true => simp [hbit hfi]

/-! ## Masks of one bit, and toggled flags -/

/-- For a mask of one bit, `x & m` tests the flag. -/
theorem isSet_of_and_ne_zero {x m : BitVec w} {k : Nat}
    (hm : ∀ i, m.getLsbD i = true → i = k) (h : x &&& m ≠ 0#w) : isSet x m = true := by
  obtain ⟨i, hi⟩ := exists_getLsbD_of_ne_zero h
  have hboth : x.getLsbD i = true ∧ m.getLsbD i = true := by simpa using hi
  rw [isSet_iff]
  intro j hj
  rw [hm j hj, ← hm i hboth.2]
  exact hboth.1

/-- A flag that is set after it has been toggled was not set before. -/
theorem isSet_of_isSet_xor_self {x m : BitVec w} (hm : m ≠ 0#w)
    (h : isSet (x ^^^ m) m = true) : isSet x m = false := by
  obtain ⟨i, hi⟩ := exists_getLsbD_of_ne_zero hm
  have htoggled := isSet_iff.mp h i hi
  by_contra hset
  have hx := isSet_iff.mp (by simpa using hset) i hi
  simp [hx, hi] at htoggled

/-- Toggling other flags does not change a flag. -/
theorem isSet_of_isSet_xor {x m f : BitVec w} (hd : m &&& f = 0#w)
    (h : isSet (x ^^^ f) m = true) : isSet x m = true := by
  rw [isSet_iff] at h ⊢
  intro i hi
  have htoggled := h i hi
  have hf := disjoint_getLsbD hd hi
  simpa [hf] using htoggled

/-! ## Single bits of a map -/

theorem getLsbD_or_bit (x : BitVec w) {i j : Nat} (hj : j < w) :
    (x ||| 1#w <<< i).getLsbD j = (x.getLsbD j || decide (j = i)) := by
  have hbit : (1#w <<< i).getLsbD j = decide (j = i) := by
    by_cases hij : j = i
    · simp [hij]
      omega
    · simp [hij]
      omega
  rw [getLsbD_or, hbit]

theorem getLsbD_and_not_bit {x : BitVec w} {i j : Nat} (hj : j < w) :
    (x &&& ~~~(1#w <<< i)).getLsbD j = (x.getLsbD j && !decide (j = i)) := by
  have hbit : (1#w <<< i).getLsbD j = decide (j = i) := by
    have h := getLsbD_or_bit (0#w) (i := i) hj
    simpa using h
  rw [getLsbD_and, getLsbD_not, hbit]
  simp [hj]

end Minix.Foundation
