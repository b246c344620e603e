/-
  Foundation/IntrusiveList.lean --- singly linked lists threaded through a table.

  The nodes of the lists are table entries, and the link to the next node is a
  field of the entry itself.  Any number of list heads point into the same
  table.  List code walks such a list with a pointer to a pointer: it holds the
  cell that contains the link, not the node, so the head needs no special case.

  A cell is a `Ref`, either a list head or the link field of a node.  `Path L r l`
  says that following the links from the cell `r` visits exactly the nodes `l`
  and then meets the nil pointer.  A path is finite and visits no node twice
  (`Path.nodup`), because the links are a function of the node.

  The update rules (`Path.unlink` and `Path.insert` for one list, `Path.erase` and
  `Path.link` for the lists of a table) are stated for any table of links `L'` that agrees
  with `L` outside the cells an operation writes, so they do not depend on the order of
  the writes.
-/
import Mathlib.Data.Fintype.Card
import Mathlib.Data.List.Nodup
import Mathlib.Data.Fintype.List

set_option autoImplicit false

open List

namespace Minix.Foundation

variable {fuel : Nat}

/-- The link fields of a table: one per list head, one per node. -/
structure Links (H N : Type) where
  head : H → Option N
  next : N → Option N

/-- A cell that contains a link. -/
inductive Ref (H N : Type) where
  | head (h : H)
  | next (n : N)
  deriving DecidableEq

variable {H N : Type}

variable {r : Ref H N} {l l' before after : List N} {n : N} {test : N → Bool}

/-- The node a cell belongs to; a list head belongs to none. -/
def Ref.owner : Ref H N → Option N
  | .head _ => none
  | .next n => some n

namespace Links

/-- The contents of a cell. -/
def get (L : Links H N) : Ref H N → Option N
  | .head h => L.head h
  | .next n => L.next n

theorem get_head (L : Links H N) (h : H) : L.get (.head h) = L.head h := rfl

theorem get_next (L : Links H N) (n : N) : L.get (.next n) = L.next n := rfl

/-- A cell is written. -/
def set [DecidableEq H] [DecidableEq N] (L : Links H N) (r : Ref H N) (v : Option N) : Links H N :=
  match r with
  | .head h => { L with head := Function.update L.head h v }
  | .next n => { L with next := Function.update L.next n v }

@[simp] theorem get_set_self [DecidableEq H] [DecidableEq N] {L : Links H N} (r : Ref H N) (v : Option N) :
    (L.set r v).get r = v := by
  cases r <;> simp [set, get]

theorem get_set_of_ne [DecidableEq H] [DecidableEq N] {L : Links H N} {c : Ref H N} {v : Option N}
    (h : c ≠ r) : (L.set r v).get c = L.get c := by
  cases r <;> cases c <;> simp_all [set, get]

theorem get_set [DecidableEq H] [DecidableEq N] {L : Links H N} {r c : Ref H N} {v : Option N} :
    (L.set r v).get c = if c = r then v else L.get c := by
  split_ifs with hc
  · rw [hc, get_set_self]
  · exact get_set_of_ne hc

/-! ## Paths -/

/-- Following the links from the cell `r` visits the nodes `l` and ends at nil. -/
def Path (L : Links H N) : Ref H N → List N → Prop
  | r, [] => L.get r = none
  | r, n :: l => L.get r = some n ∧ L.Path (.next n) l

@[simp] theorem path_nil {L : Links H N} {r : Ref H N} : L.Path r [] ↔ L.get r = none :=
  Iff.rfl

/-- The cell at which a walk over `l` from `r` arrives. -/
def lastRef : Ref H N → List N → Ref H N
  | r, [] => r
  | _, n :: l => lastRef (.next n) l

@[simp] theorem lastRef_nil (r : Ref H N) : lastRef r [] = r := rfl

@[simp] theorem lastRef_cons (r : Ref H N) (n : N) (l : List N) :
    lastRef r (n :: l) = lastRef (.next n) l := rfl

theorem lastRef_append (r : Ref H N) (l l' : List N) :
    lastRef r (l ++ l') = lastRef (lastRef r l) l' := by
  induction l generalizing r with
  | nil => rfl
  | cons n l ih => exact ih _

/-- A walk over at least one node ends at the link field of one of the nodes. -/
theorem exists_lastRef_cons (r : Ref H N) (n : N) (l : List N) :
    ∃ x ∈ n :: l, lastRef r (n :: l) = .next x := by
  induction l generalizing r n with
  | nil => exact ⟨n, by simp, rfl⟩
  | cons m l ih =>
    obtain ⟨x, hx, hlast⟩ := ih (.next n) m
    exact ⟨x, mem_cons_of_mem _ hx, hlast⟩

/-- The cell at the end of a walk from a list head is that head or the link of a node
on the walk. -/
theorem lastRef_head_cases {h : H} {l : List N} :
    lastRef (.head h) l = .head h ∨ ∃ x ∈ l, lastRef (.head h) l = .next x := by
  cases l with
  | nil => exact .inl rfl
  | cons n l => exact .inr (exists_lastRef_cons _ n l)

theorem lastRef_head_ne (h : H) (hn : n ∉ l) : lastRef (.head h) l ≠ .next n := by
  rcases lastRef_head_cases with heq | ⟨x, hx, heq⟩ <;> rw [heq]
  · simp
  · intro hxn
    exact hn ((by simpa using hxn : x = n) ▸ hx)

/-- From a list head, the cell at the end of a walk is owned by the last node. -/
theorem owner_lastRef_head (h : H) (l : List N) :
    (lastRef (.head h) l).owner = l.getLast? := by
  cases l using reverseRecOn with
  | nil => rfl
  | append_singleton l n =>
    rw [lastRef_append, lastRef_cons, lastRef_nil, getLast?_concat]
    rfl

variable {L L' : Links H N}

/-- The rest of a path is a path from the cell where the walk has arrived. -/
theorem Path.suffix (h : L.Path r (l ++ l')) : L.Path (lastRef r l) l' := by
  induction l generalizing r with
  | nil => exact h
  | cons n l ih => exact ih h.2

/-- The nodes on a path are determined by the links. -/
theorem Path.unique (h : L.Path r l) (h' : L.Path r l') : l = l' := by
  induction l generalizing r l' with
  | nil =>
    cases l' with
    | nil => rfl
    | cons n l' => exact nomatch h.symm.trans h'.1
  | cons m l ih =>
    cases l' with
    | nil => exact nomatch h'.symm.trans h.1
    | cons n l' =>
      have hmn : m = n := Option.some.inj (h.1.symm.trans h'.1)
      subst hmn
      rw [ih h.2 h'.2]

/-- A path never returns to the node it leaves from: the rest of the path would
be as long as the whole path. -/
theorem Path.not_mem_next (h : L.Path (.next n) l) : n ∉ l := by
  intro hmem
  obtain ⟨before, after, rfl⟩ := append_of_mem hmem
  have hrest : L.Path (.next n) after := by
    have hsuffix : L.Path (lastRef (.next n) before) (n :: after) := h.suffix
    exact hsuffix.2
  have heq := h.unique hrest
  have hlen := congrArg length heq
  simp at hlen
  omega

/-- The cell a path starts from is not the link field of a node on the path. -/
theorem Path.ref_ne (h : L.Path r l) {x : N} (hx : x ∈ l) : r ≠ .next x := by
  rintro rfl
  exact h.not_mem_next hx

theorem Path.nodup (h : L.Path r l) : l.Nodup := by
  induction l generalizing r with
  | nil => exact nodup_nil
  | cons n l ih => exact nodup_cons.mpr ⟨h.2.not_mem_next, ih h.2⟩

theorem Path.length_le [Fintype N] (h : L.Path r l) : l.length ≤ Fintype.card N :=
  h.nodup.length_le_card

/-- The cell at the end of the walked part holds the first node of the rest. -/
theorem Path.get_lastRef (h : L.Path r (l ++ l')) : L.get (lastRef r l) = l'.head? := by
  have hsuffix := h.suffix
  cases l' with
  | nil => simpa using hsuffix
  | cons n l' => simpa using hsuffix.1

/-- A cell holds the first node of its path. -/
theorem Path.get_eq (h : L.Path r l) : L.get r = l.head? :=
  Path.get_lastRef (l := []) h

/-- Paths read only the cells they walk over. -/
theorem Path.congr {r' : Ref H N} (h : L.Path r l)
    (hr : L'.get r' = L.get r) (hl : ∀ x ∈ l, L'.next x = L.next x) : L'.Path r' l := by
  induction l generalizing r r' with
  | nil => exact hr.trans h
  | cons n l ih =>
    refine ⟨hr.trans h.1, ih h.2 (hl n (by simp)) ?_⟩
    intro x hx
    exact hl x (mem_cons_of_mem _ hx)

/-- The cell a path starts from is not the one at the end of a part of it. -/
theorem Path.ref_ne_lastRef (h : L.Path r (n :: before ++ after)) : r ≠ lastRef r (n :: before) := by
  obtain ⟨x, hx, hend⟩ := exists_lastRef_cons r n before
  rw [hend]
  exact h.ref_ne (mem_append_left _ hx)

/-! ## Updates -/

/-- Unlinking a node: its predecessor's link takes the node's own link. -/
theorem Path.unlink (h : L.Path r (before ++ n :: after))
    (hskip : L'.get (lastRef r before) = L.next n)
    (hsame : ∀ x, x ∈ before ++ n :: after → Ref.next x ≠ lastRef r before →
      L'.next x = L.next x) (hhead : r ≠ lastRef r before → L'.get r = L.get r) :
    L'.Path r (before ++ after) := by
  induction before generalizing r with
  | nil =>
    refine h.2.congr hskip fun x hx => ?_
    refine hsame x (by simp [hx]) ?_
    intro heq
    exact h.ref_ne (x := x) (by simp [hx]) heq.symm
  | cons m before ih =>
    refine ⟨(hhead h.ref_ne_lastRef).trans h.1, ih h.2 hskip ?_ ?_⟩
    · intro x hx hx'
      exact hsame x (mem_cons_of_mem _ hx) hx'
    · intro hm
      exact hsame m (by simp) hm

/-- Linking a node in at a position of a list. -/
theorem Path.insert (h : L.Path r (before ++ after)) (hn : n ∉ before ++ after) (hr : r ≠ .next n)
    (hlink : L'.get (lastRef r before) = some n) (hnext : L'.next n = L.get (lastRef r before))
    (hsame : ∀ c, c ≠ lastRef r before → c ≠ .next n → L'.get c = L.get c) :
    L'.Path r (before ++ n :: after) := by
  induction before generalizing r with
  | nil =>
    refine ⟨hlink, Path.congr (r := r) h hnext fun x hx => ?_⟩
    refine hsame (.next x) (fun heq => ?_) (fun heq => ?_)
    · exact h.ref_ne (x := x) hx heq.symm
    · have hxn : x = n := by simpa using heq
      exact hn (hxn ▸ hx)
  | cons m before ih =>
    refine ⟨(hsame r h.ref_ne_lastRef hr).trans h.1, ?_⟩
    refine ih h.2 (fun hm => hn (mem_cons_of_mem _ hm)) ?_ hlink hnext hsame
    intro heq
    have hmn : m = n := by simpa using heq
    exact hn (hmn ▸ mem_cons_self)

/-! ## Several lists

The lists of a table have no node in common, so an update of one of them leaves the
others alone. -/

/-- No node is on the lists of two heads. -/
def Apart (Q : H → List N) : Prop := ∀ ⦃h h' : H⦄ ⦃x : N⦄, x ∈ Q h → x ∈ Q h' → h = h'

/-- Lists of the nodes with different keys have no node in common. -/
theorem apart_of_key {Q : H → List N} {on : N → Prop} {key : N → H}
    (hmem : ∀ h x, x ∈ Q h ↔ on x ∧ key x = h) : Apart Q :=
  fun h h' x hx hx' => ((hmem h x).mp hx).2.symm.trans ((hmem h' x).mp hx').2

/-- A list is kept when only the cell at the end of a walk over another list and the link
of a node that is on neither are written. -/
theorem Path.of_apart {c d : H} (hpath : L.Path (.head d) l') (hd : d ≠ c) (hl : ∀ x ∈ l, x ∉ l')
    (hn : n ∉ l') (hsame : ∀ r, r ≠ lastRef (.head c) l → r ≠ .next n → L'.get r = L.get r) :
    L'.Path (.head d) l' := by
  have hcell : ∀ r : Ref H N, r = .head d ∨ (∃ x ∈ l', r = .next x) → L'.get r = L.get r := by
    intro r hr
    refine hsame r ?_ ?_
    · rintro rfl
      rcases lastRef_head_cases with hlast | ⟨y, hy, hlast⟩ <;> rw [hlast] at hr
      · exact hd (by simpa [eq_comm] using hr)
      · exact hl y hy (by simpa using hr)
    · rintro rfl
      exact hn (by simpa using hr)
  exact hpath.congr (hcell _ (.inl rfl)) fun x hx => hcell (.next x) (.inr ⟨x, hx, rfl⟩)

section Apart

variable {Q : H → List N} {c d : H}

/-- A node is unlinked from the list it is on. -/
theorem Path.erase [DecidableEq N] (hpath : L.Path (.head d) (Q d)) (hQ : Apart Q)
    (hc : Q c = before ++ n :: after) (hskip : L'.get (lastRef (.head c) before) = L.next n)
    (hsame : ∀ r, r ≠ lastRef (.head c) before → L'.get r = L.get r) :
    L'.Path (.head d) ((Q d).erase n) := by
  have hmem : n ∈ Q c := by simp [hc]
  by_cases hd : d = c
  · subst hd
    have hnodup := hpath.nodup
    rw [hc] at hpath hnodup ⊢
    have hnot : n ∉ before := fun hin => (nodup_append.mp hnodup).2.2 n hin n (by simp) rfl
    rw [erase_append_right _ hnot, erase_cons_head]
    exact hpath.unlink hskip (fun x _ hx => hsame (.next x) hx) fun hne => hsame _ hne
  · have hother : ∀ x ∈ Q c, x ∉ Q d := fun x hx hx' => hd (hQ hx' hx)
    rw [erase_of_not_mem (hother n hmem)]
    refine hpath.of_apart hd (fun x hx => hother x ?_) (hother n hmem) fun r hr _ => hsame r hr
    simp [hc, hx]

variable [DecidableEq H]

/-- A node that is on no list is linked in at a position of a list. -/
theorem Path.link (hpath : L.Path (.head d) (Q d)) (hQ : Apart Q) (hc : Q c = before ++ after)
    (hn : ∀ d, n ∉ Q d) (hlink : L'.get (lastRef (.head c) before) = some n)
    (hnext : L'.next n = after.head?)
    (hsame : ∀ r, r ≠ lastRef (.head c) before → r ≠ .next n → L'.get r = L.get r) :
    L'.Path (.head d) (Function.update Q c (before ++ n :: after) d) := by
  by_cases hd : d = c
  · subst hd
    rw [Function.update_self]
    rw [hc] at hpath
    exact hpath.insert (hc ▸ hn d) (by simp) hlink (hnext.trans hpath.get_lastRef.symm) hsame
  · rw [Function.update_of_ne hd]
    refine hpath.of_apart hd (fun x hx hx' => hd (hQ hx' ?_)) (hn d) hsame
    simp [hc, hx]

theorem mem_link (hc : Q c = before ++ after) {x : N} :
    x ∈ Function.update Q c (before ++ n :: after) d ↔ x ∈ Q d ∨ x = n ∧ d = c := by
  by_cases hd : d = c
  · subst hd
    simp only [Function.update_self, hc, mem_append, mem_cons]
    tauto
  · simp [hd]

end Apart

/-! ## Walks

The loops over such lists walk from a cell until a node passes a test or the list
ends.  They are bounded by fuel here; `none` is a walk that has not ended. -/

/-- The first cell from `r` on whose node passes the test, or the last cell. -/
def seek (L : Links H N) (test : N → Bool) : Nat → Ref H N → Option (Ref H N)
  | 0, _ => none
  | fuel + 1, r =>
      match L.get r with
      | none => some r
      | some n => if test n then some r else L.seek test fuel (.next n)

/-- The nodes from `r` to the end of the list. -/
def nodes (L : Links H N) : Nat → Ref H N → Option (List N)
  | 0, _ => none
  | fuel + 1, r =>
      match L.get r with
      | none => some []
      | some n => (L.nodes fuel (.next n)).map (n :: ·)

theorem Path.nodes_eq (h : L.Path r l) (hfuel : l.length < fuel) : L.nodes fuel r = some l := by
  induction l generalizing r fuel with
  | nil =>
    cases fuel with
    | zero => simp at hfuel
    | succ fuel =>
      have hget : L.get r = none := h
      simp [nodes, hget]
  | cons n l ih =>
    cases fuel with
    | zero => simp at hfuel
    | succ fuel =>
      have hrest := ih h.2 (by simpa using hfuel)
      simp [nodes, h.1, hrest]

/-- A walk passes over the nodes that fail the test and stops in front of the
first one that passes it. -/
theorem Path.seek_eq (h : L.Path r (before ++ after)) (hbefore : ∀ x ∈ before, test x = false)
    (hafter : ∀ x, after.head? = some x → test x = true)
    (hfuel : before.length < fuel) : L.seek test fuel r = some (lastRef r before) := by
  induction before generalizing r fuel with
  | nil =>
    cases fuel with
    | zero => simp at hfuel
    | succ fuel =>
      cases after with
      | nil =>
        have hget : L.get r = none := h
        simp [seek, hget]
      | cons n after =>
        have hn : test n = true := hafter n rfl
        have hget : L.get r = some n := h.1
        simp [seek, hget, hn]
  | cons m before ih =>
    cases fuel with
    | zero => simp at hfuel
    | succ fuel =>
      have hm : test m = false := hbefore m (by simp)
      have hget : L.get r = some m := h.1
      have hrest := ih h.2 (fun x hx => hbefore x (mem_cons_of_mem _ hx))
        (by simpa using hfuel)
      simp [seek, hget, hm, hrest]

/-- A walk stops in front of the first node that passes the test, or at the end of the list. -/
theorem Path.exists_seek (h : L.Path r l) (test : N → Bool) (hfuel : l.length < fuel) :
    ∃ c, L.seek test fuel r = some c ∧ ((∃ before n after, l = before ++ n :: after ∧
      c = lastRef r before ∧ L.get c = some n ∧ l.find? test = some n) ∨
      (c = lastRef r l ∧ L.get c = none ∧ ∀ x ∈ l, test x = false)) := by
  cases hfind : l.find? test with
  | none =>
    have hall : ∀ x ∈ l, test x = false := by simpa using find?_eq_none.mp hfind
    have hpath : L.Path r (l ++ []) := by rwa [append_nil]
    exact ⟨_, hpath.seek_eq hall (by simp) hfuel, .inr ⟨rfl, hpath.get_lastRef, hall⟩⟩
  | some n =>
    obtain ⟨hn, before, after, hl, hbefore⟩ := find?_eq_some_iff_append.mp hfind
    have hpath : L.Path r (before ++ n :: after) := hl ▸ h
    have hlen : before.length < fuel := by
      simp only [hl, length_append, length_cons] at hfuel
      omega
    have hfirst : ∀ x, (n :: after).head? = some x → test x = true := by
      intro x hx
      have hxn : n = x := by simpa using hx
      exact hxn ▸ hn
    exact ⟨_, hpath.seek_eq (fun x hx => by simpa using hbefore x hx) hfirst hlen,
      .inl ⟨before, n, after, hl, rfl, hpath.get_lastRef, rfl⟩⟩

theorem Path.seek_cases {c : Ref H N} (h : L.Path r l)
    (hfuel : l.length < fuel) (hseek : L.seek test fuel r = some c) :
    (∃ before n after, l = before ++ n :: after ∧ c = lastRef r before ∧ L.get c = some n ∧
      l.find? test = some n) ∨ (c = lastRef r l ∧ L.get c = none ∧ ∀ x ∈ l, test x = false) := by
  obtain ⟨c', hc', hcases⟩ := h.exists_seek test hfuel
  obtain rfl := Option.some.inj (hseek.symm.trans hc')
  exact hcases

/-! ## Members

A list that does not end has no path.  `Visits` says that a node can be reached from a
cell, whether the list ends or not. -/

/-- Following the links from the cell `r` leads to the node `x`. -/
inductive Visits (L : Links H N) : Ref H N → N → Prop
  | here {r : Ref H N} {x : N} (h : L.get r = some x) : L.Visits r x
  | there {r : Ref H N} {y x : N} (h : L.get r = some y) (hx : L.Visits (.next y) x) : L.Visits r x

theorem Path.visits_iff (h : L.Path r l) {x : N} : L.Visits r x ↔ x ∈ l := by
  induction l generalizing r with
  | nil =>
    simp only [not_mem_nil, iff_false]
    rintro (hx | ⟨hy, _⟩)
    · exact nomatch h.symm.trans hx
    · exact nomatch h.symm.trans hy
  | cons n l ih =>
    obtain ⟨hget, hrest⟩ := h
    rw [mem_cons]
    constructor
    · rintro (hx | ⟨hy, hx⟩)
      · exact .inl (Option.some.inj (hx.symm.trans hget))
      · cases Option.some.inj (hy.symm.trans hget)
        exact .inr ((ih hrest).mp hx)
    · rintro (rfl | hx)
      · exact .here hget
      · exact .there hget ((ih hrest).mpr hx)

theorem not_visits_of_get (h : L.get r = none) (x : N) : ¬ L.Visits r x := fun hx =>
  absurd ((path_nil.mpr h).visits_iff.mp hx) not_mem_nil

variable {c : N} (hr : L'.get r = L.get r) (hnext : ∀ y, y ≠ c → L'.next y = L.next y)
include hr hnext

/-- Whether a walk comes to the node `c` does not depend on the link of `c`, and nothing does if it
does not come there. -/
theorem visits_congr {x : N} (hx : x = c ∨ ¬ L.Visits r c) : L'.Visits r x ↔ L.Visits r x := by
  have himp : ∀ {L L' : Links H N} {r : Ref H N} {x : N}, L.Visits r x → (x = c ∨ ¬ L.Visits r c) →
      L'.get r = L.get r → (∀ y, y ≠ c → L'.next y = L.next y) → L'.Visits r x := by
    intro L L' r x h
    induction h with
    | here h => exact fun _ hr _ => .here (hr.trans h)
    | @there r y x h _ ih =>
      intro hx hr hnext
      by_cases hy : y = c
      · have hxy : x = y := (hx.resolve_right fun hc => hc (.here (hy ▸ h))).trans hy.symm
        exact .here (hr.trans (hxy ▸ h))
      · exact .there (hr.trans h) (ih (hx.imp_right fun hc hyc => hc (.there h hyc)) (hnext y hy) hnext)
  have hsymm : ∀ y, y ≠ c → L.next y = L'.next y := fun y hy => (hnext y hy).symm
  exact ⟨fun h => himp h (hx.imp_right fun hc hv => hc (himp hv (.inl rfl) hr.symm hsymm)) hr.symm hsymm,
    fun h => himp h hx hr hnext⟩

end Links

end Minix.Foundation
