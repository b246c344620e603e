/-
  Foundation/HashChain.lean --- hash chains threaded through a table.

  Every node that is filed is on the chain of its key, and on no other chain.  A node is
  found by walking the chain of the key that is looked for, taken out by walking its own
  chain, and filed at the front of a chain.
-/
import Minix.Foundation.IntrusiveList
import Minix.Foundation.DoublyLinked

set_option autoImplicit false

namespace Minix.Foundation

namespace Links

variable {H N : Type} {L : Links H N} {key : N → H} {on : N → Prop}

/-- The nodes that are `on` are on the chains of their keys, and on no others. -/
def Filed (L : Links H N) (key : N → H) (on : N → Prop) : Prop :=
  ∀ h, ∃ l, L.Path (.head h) l ∧ ∀ x, x ∈ l ↔ on x ∧ key x = h

/-- Only the keys of filed nodes matter. -/
theorem Filed.congr {key' : N → H} {on' : N → Prop} (h : L.Filed key on) (hon : ∀ x, on' x ↔ on x)
    (hkey : ∀ x, on x → key' x = key x) : L.Filed key' on' := by
  intro c
  obtain ⟨l, hpath, hmem⟩ := h c
  refine ⟨l, hpath, ?_⟩
  intro x
  rw [hmem, hon]
  constructor
  · rintro ⟨hx, hk⟩
    exact ⟨hx, (hkey x hx).trans hk⟩
  · rintro ⟨hx, hk⟩
    exact ⟨hx, (hkey x hx).symm.trans hk⟩

/-- A table whose entries are linked in order, on the chains that `first` selects. -/
def inOrder {n : Nat} (hn : 0 < n) (first : H → Bool) : Links H (Fin n) where
  head c := if first c then some ⟨0, hn⟩ else none
  next x := if h : x.val + 1 < n then some ⟨x.val + 1, h⟩ else none

theorem path_inOrder {n : Nat} (hn : 0 < n) (first : H → Bool) {c : H} (hc : first c = true) :
    ∃ l, (inOrder hn first).Path (.head c) l ∧ ∀ x, x ∈ l := by
  refine ⟨List.finRange n, ?_, List.mem_finRange⟩
  have hrest : ∀ k i (h : i < n), i + k + 1 = n →
      (inOrder hn first).Path (.next ⟨i, h⟩) ((List.finRange n).drop (i + 1)) := by
    intro k
    induction k with
    | zero =>
      intro i h hi
      rw [List.drop_eq_nil_of_le (by simp; omega)]
      exact dif_neg (by simp; omega)
    | succ k ih =>
      intro i h hi
      have hlt : i + 1 < n := by omega
      rw [DLinks.finRange_drop hlt]
      exact ⟨dif_pos hlt, ih (i + 1) hlt (by omega)⟩
  have hcons : List.finRange n = ⟨0, hn⟩ :: (List.finRange n).drop 1 := DLinks.finRange_drop hn
  rw [hcons]
  exact ⟨if_pos hc, hrest (n - 1) 0 hn (by omega)⟩

section Find

variable [Fintype N] (test : N → Bool)

/-- The first node on a chain that passes the test. -/
def find (L : Links H N) (test : N → Bool) (fuel : Nat) (h : H) : Option N :=
  (L.seek test fuel (.head h)).bind L.get

variable {test : N → Bool} (h : L.Filed key on) {fuel : Nat} (hfuel : Fintype.card N < fuel) {c : H}
include h hfuel

theorem Filed.find_some {x : N} (hfind : L.find test fuel c = some x) :
    test x = true ∧ on x ∧ key x = c := by
  obtain ⟨l, hpath, hmem⟩ := h c
  have hlen : l.length < fuel := Nat.lt_of_le_of_lt hpath.length_le hfuel
  obtain ⟨r, hr, hcases⟩ := hpath.exists_seek test hlen
  unfold find at hfind
  rw [hr, Option.bind_some] at hfind
  rcases hcases with ⟨before, n, after, hl, -, hget, hfirst⟩ | ⟨-, hnone, -⟩
  · obtain rfl : n = x := Option.some.inj (hget.symm.trans hfind)
    have hx : n ∈ l := by simp [hl]
    exact ⟨List.find?_some hfirst, (hmem n).mp hx⟩
  · exact nomatch hnone.symm.trans hfind

theorem Filed.find_none (hfind : L.find test fuel c = none) {x : N} (hon : on x)
    (hkey : key x = c) : test x = false := by
  obtain ⟨l, hpath, hmem⟩ := h c
  have hlen : l.length < fuel := Nat.lt_of_le_of_lt hpath.length_le hfuel
  obtain ⟨r, hr, hcases⟩ := hpath.exists_seek test hlen
  unfold find at hfind
  rw [hr, Option.bind_some] at hfind
  rcases hcases with ⟨before, n, after, hl, -, hget, hfirst⟩ | ⟨-, -, hall⟩
  · exact nomatch hget.symm.trans hfind
  · exact hall x ((hmem x).mpr ⟨hon, hkey⟩)

end Find

variable [DecidableEq H] [DecidableEq N]

/-- A node is taken out of the chain `h`. -/
def takeOut (L : Links H N) (fuel : Nat) (h : H) (n : N) : Links H N :=
  match L.seek (fun x => x == n) fuel (.head h) with
  | some r => if L.get r = some n then L.set r (L.next n) else L
  | none => L

/-- A node is filed at the front of the chain `h`. -/
def fileAt (L : Links H N) (h : H) (n : N) : Links H N :=
  (L.set (.next n) (L.head h)).set (.head h) (some n)

theorem Filed.takeOut [Fintype N] (h : L.Filed key on) {fuel : Nat} (hfuel : Fintype.card N < fuel) {n : N}
    (hn : on n) : (L.takeOut fuel (key n) n).Filed key fun x => on x ∧ x ≠ n := by
  choose Q hpath hmem using h
  have hlen : (Q (key n)).length < fuel := Nat.lt_of_le_of_lt (hpath _).length_le hfuel
  have hin : n ∈ Q (key n) := (hmem _ n).mpr ⟨hn, rfl⟩
  obtain ⟨r, hr, ⟨before, m, after, hl, rfl, hget, hfirst⟩ | ⟨-, -, hall⟩⟩ :=
    (hpath (key n)).exists_seek (fun x => x == n) hlen
  · obtain rfl : m = n := by simpa using List.find?_some hfirst
    have hout : L.takeOut fuel (key m) m = L.set (lastRef (.head (key m)) before) (L.next m) := by
      unfold Links.takeOut
      rw [hr]
      exact if_pos hget
    rw [hout]
    refine fun c => ⟨_, (hpath c).erase (apart_of_key hmem) hl (get_set_self _ _) fun r hne =>
      get_set_of_ne hne, fun x => ?_⟩
    rw [(hpath c).nodup.mem_erase_iff, hmem]
    tauto
  · exact absurd (hall n hin) (by simp)

theorem Filed.fileAt (h : L.Filed key on) {n : N} (hn : ¬ on n) (c : H) :
    (L.fileAt c n).Filed (Function.update key n c) fun x => on x ∨ x = n := by
  choose Q hpath hmem using h
  have hnot : ∀ c, n ∉ Q c := fun c hin => hn ((hmem c n).mp hin).1
  have hnext : (L.fileAt c n).get (.next n) = L.get (.head c) := by
    unfold Links.fileAt
    rw [get_set_of_ne (by simp), get_set_self]
    rfl
  have hfront : Q c = [] ++ Q c := rfl
  refine fun d => ⟨_, (hpath d).link (apart_of_key hmem) hfront hnot (get_set_self _ _)
    (hnext.trans (hpath c).get_eq) fun r hr hr' => ?_, fun x => ?_⟩
  · exact (get_set_of_ne hr).trans (get_set_of_ne hr')
  · rw [mem_link hfront, hmem]
    by_cases hx : x = n
    · subst hx
      simp [hn, eq_comm]
    · simp [hx]

end Links

end Minix.Foundation
