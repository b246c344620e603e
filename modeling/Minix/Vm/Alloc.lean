/-
  Vm/Alloc.lean --- the page allocator of VM: `alloc.c` in paged mode.

  The free pages are ranges in a map ordered by address (an AVL tree in the source, a sorted
  list here).  `alloc_pages` takes pages off the end of a range; `free_pages` joins the pages
  with the range above them or makes a range of them, and then joins that with the range
  below.  A new range needs an object of the slab allocator, which may take a page for
  itself in the middle of `free_pages`.

  Page number 0 is not a page that can be handed out, because NO_MEM is 0.
-/
import Mathlib.Logic.Relation
import Minix.Foundation.Ranges
import Minix.Foundation.FlagWord

set_option autoImplicit false

namespace Minix.Vm

open Minix.Foundation Relation Finset

variable {memflags : BitVec 32} {pages pageno npages clicks : Nat} {pr : Range} {l : List Range}

/-! ## Definitions -/

/-- `NO_MEM` -/
def noMem : Nat := 0

def pafClear : BitVec 32 := 0x01#32
def pafAlign64k : BitVec 32 := 0x04#32
def pafLower16mb : BitVec 32 := 0x08#32
def pafLower1mb : BitVec 32 := 0x10#32

/-- 64 kB, 16 MB and 1 MB in pages. -/
def alignClicks : Nat := 16
def boundary16 : Nat := 4096
def boundary1 : Nat := 256

/-- What the slab allocator does for an object: it has one (in a page it has, or in a spare
page), it asks for a page, or it has no place for a page.  A page it gets has to be mapped,
which can fail. -/
inductive SlabEnv where
  | object
  | newPage (mapped : Bool)
  | noRoom
  deriving DecidableEq, Repr

variable {env : SlabEnv}

/-- The memory of the machine: the free ranges, the pages that the slab allocator has taken,
and whether VM has stopped with a panic. -/
structure Memory where
  free : List Range
  slab : Finset Nat
  halted : Bool

variable {m : Memory}

namespace Memory

def panic (m : Memory) : Memory := { m with halted := true }

/-- The range from which `alloc_pages` takes pages: the first that has enough, from the
bottom if the memory has to be low and from the top otherwise. -/
def findRange (m : Memory) (pages : Nat) (memflags : BitVec 32) : Option Range :=
  let ranges := if memflags &&& (pafLower16mb ||| pafLower1mb) ≠ 0#32 then m.free else m.free.reverse
  ranges.find? fun pr => pages ≤ pr.size

/-- `pages` pages off the end of `pr` are taken. -/
def takePages (m : Memory) (pr : Range) (pages : Nat) : Memory :=
  if pr.size = pages then { m with free := removeRange m.free pr.base }
  else { m with free := modifyRange m.free pr.base fun r => ⟨r.base, r.size - pages⟩ }

/-- `alloc_pages(pages, memflags)`; `cleared` is whether `sys_memset` succeeds. -/
def allocPages (m : Memory) (pages : Nat) (memflags : BitVec 32) (cleared : Bool) : Nat × Memory :=
  match m.findRange pages memflags with
  | none => (noMem, m)
  | some pr =>
      if memflags &&& pafLower16mb ≠ 0#32 ∧ boundary16 < pr.base + pages then (noMem, m)
      else if memflags &&& pafLower1mb ≠ 0#32 ∧ boundary1 < pr.base + pages then (noMem, m)
      else
        let mem := pr.base + pr.size - pages
        let m1 := m.takePages pr pages
        if memflags &&& pafClear ≠ 0#32 ∧ cleared = false then (noMem, m1.panic) else (mem, m1)

/-- `SLABALLOC(pr)`, with `vm_allocpage` for a new page.  A page that cannot be mapped is
given back, but the caller stops VM then. -/
def slabAlloc (m : Memory) : SlabEnv → Option Memory
  | .object => some m
  | .noRoom => none
  | .newPage mapped =>
      let (mem, m1) := m.allocPages 1 0#32 true
      if mem = noMem then none
      else if mapped then some { m1 with slab := insert mem m1.slab } else none

/-- The end of `free_pages`: the range `pr` is joined with the one below it. -/
def joinBelow (l : List Range) (pr : Range) : List Range :=
  match rangeBelow l pr.base with
  | none => l
  | some p =>
      if p.base + p.size = pr.base then
        removeRange (modifyRange l p.base fun r => ⟨r.base, r.size + pr.size⟩) pr.base
      else l

/-- `free_pages(pageno, npages)` -/
def freePages (m : Memory) (env : SlabEnv) (pageno npages : Nat) : Memory :=
  match search m.free (pageno + npages) with
  | some pr =>
      let grown : Range := ⟨pr.base - npages, pr.size + npages⟩
      { m with free := joinBelow (modifyRange m.free (pageno + npages) fun _ => grown) grown }
  | none =>
      match m.slabAlloc env with
      | none => m.panic
      | some m1 =>
          { m1 with free := joinBelow (insertRange m1.free ⟨pageno, npages⟩) ⟨pageno, npages⟩ }

/-- `free_mem(base, clicks)` -/
def freeMem (m : Memory) (env : SlabEnv) (base clicks : Nat) : Memory :=
  if clicks = 0 then m else m.freePages env base clicks

/-- `alloc_mem(clicks, memflags)` -/
def allocMem (m : Memory) (env : SlabEnv) (clicks : Nat) (memflags : BitVec 32) (cleared : Bool) :
    Nat × Memory :=
  if memflags &&& pafAlign64k ≠ 0#32 then
    let (mem, m1) := m.allocPages (clicks + alignClicks) memflags cleared
    let o := mem % alignClicks
    if mem = noMem then (mem, m1)
    else if 0 < o then (mem + (alignClicks - o), m1.freeMem env mem (alignClicks - o))
    else (mem, m1)
  else m.allocPages clicks memflags cleared

/-- `mem_init(chunks)`, where objects are in spare pages. -/
def memInit (chunks : List Range) : Memory :=
  chunks.foldr (fun chunk m => m.freeMem .object chunk.base chunk.size) ⟨[], ∅, false⟩

end Memory

/-- No flag says where the memory has to be. -/
def NoPlacement (memflags : BitVec 32) : Prop :=
  memflags &&& (pafAlign64k ||| pafLower16mb ||| pafLower1mb) = 0#32

instance (memflags : BitVec 32) : Decidable (NoPlacement memflags) :=
  inferInstanceAs (Decidable (_ = _))

/-! ## Taking pages -/

namespace Memory

variable {m : Memory}

theorem NoPlacement.and_eq_zero {f : BitVec 32} (h : NoPlacement memflags)
    (hf : isSet (pafAlign64k ||| pafLower16mb ||| pafLower1mb) f = true) : memflags &&& f = 0#32 := by
  have hd := disjoint_of_isSet (n := pafAlign64k ||| pafLower16mb ||| pafLower1mb) (f := memflags) hf
    (by rw [BitVec.and_comm]; exact h)
  rw [BitVec.and_comm]
  exact hd

theorem findRange_eq_none
    (h : m.findRange pages memflags = none) : ∀ pr ∈ m.free, pr.size < pages := by
  intro pr hpr
  unfold findRange at h
  rw [List.find?_eq_none] at h
  have hsize := h pr (by split <;> simp [hpr])
  simpa using hsize

theorem findRange_eq_some
    (h : m.findRange pages memflags = some pr) : pr ∈ m.free ∧ pages ≤ pr.size := by
  have hmem := List.mem_of_find?_eq_some h
  have hsize := List.find?_some h
  refine ⟨?_, by simpa using hsize⟩
  split at hmem
  · exact hmem
  · exact List.mem_reverse.mp hmem

/-- Pages off the end of a range. -/
theorem takePages_spec (h : Separated m.free) (hmem : pr ∈ m.free) (hpages : pages ≤ pr.size) :
    Separated (m.takePages pr pages).free ∧
      cover (m.takePages pr pages).free
        = cover m.free \ Finset.Ico (pr.base + pr.size - pages) (pr.base + pr.size) ∧
      Finset.Ico (pr.base + pr.size - pages) (pr.base + pr.size) ⊆ cover m.free ∧
      (m.takePages pr pages).slab = m.slab ∧ (m.takePages pr pages).halted = m.halted := by
  obtain ⟨lo, hi, hfree⟩ := List.append_of_mem hmem
  have hsep := h
  rw [hfree] at hsep
  obtain ⟨hlo, hpos, hhi, hbelow, habove, hapart⟩ := hsep.middle
  obtain ⟨hbaseLo, hbaseHi⟩ := hsep.bases
  have hsub : Finset.Ico (pr.base + pr.size - pages) (pr.base + pr.size) ⊆ cover m.free := by
    intro x hx
    rw [mem_Ico] at hx
    refine mem_cover.mpr ⟨pr, hmem, ?_⟩
    unfold Range.limit
    omega
  -- The pages of the other ranges are not between the ends of this one.
  have hcover : cover lo ∪ (Finset.Ico pr.base (pr.base + (pr.size - pages)) ∪ cover hi) =
      cover m.free \ Finset.Ico (pr.base + pr.size - pages) (pr.base + pr.size) := by
    ext x
    simp only [hfree, cover_append, cover_cons, mem_sdiff, mem_union, Range.mem_numbers, mem_Ico]
    unfold Range.limit at *
    constructor
    · rintro (hx | hx | hx)
      · obtain ⟨a, ha, hax⟩ := mem_cover.mp hx
        have := hbelow a ha
        unfold Range.limit at hax
        exact ⟨.inl hx, by omega⟩
      · exact ⟨.inr (.inl (by omega)), by omega⟩
      · obtain ⟨b, hb, hbx⟩ := mem_cover.mp hx
        have := habove b hb
        exact ⟨.inr (.inr hx), by omega⟩
    · rintro ⟨hx | hx | hx, hnot⟩
      · exact .inl hx
      · exact .inr (.inl (by omega))
      · exact .inr (.inr hx)
  unfold takePages
  split_ifs with hall
  · subst hall
    rw [← hcover, Nat.sub_self, Nat.add_zero, Finset.Ico_self, Finset.empty_union, ← cover_append, hfree,
      removeRange_middle hbaseLo hbaseHi]
    exact ⟨Separated.append_iff.mpr ⟨hlo, hhi, hapart⟩, rfl, hfree ▸ hsub, rfl, rfl⟩
  · rw [← hcover, hfree, modifyRange_middle hbaseLo hbaseHi]
    refine ⟨hlo.of_middle (show 0 < pr.size - pages by omega) hhi hbelow fun b hb => ?_, ?_, hfree ▸ hsub, rfl, rfl⟩
    · have := habove b hb
      unfold Range.limit at this ⊢
      dsimp only
      omega
    · rw [cover_append, cover_cons]
      rfl

/-- No range starts at a new place when pages are taken. -/
theorem takePages_base {r' : Range} (h : r' ∈ (m.takePages pr pages).free) :
    ∃ r ∈ m.free, r'.base = r.base := by
  unfold takePages at h
  split at h
  · exact ⟨r', (List.mem_filter.mp h).1, rfl⟩
  · obtain ⟨r, hr, rfl⟩ := List.mem_map.mp h
    refine ⟨r, hr, ?_⟩
    split <;> rfl

/-- `alloc_pages` without placement flags: it finds memory iff a range is large enough, and
takes exactly the pages it returns. -/
structure Allocates (m : Memory) (pages mem : Nat) (m' : Memory) : Prop where
  separated : Separated m'.free
  enough : ∃ pr ∈ m.free, pages ≤ pr.size
  ne_noMem : mem ≠ noMem
  free : Finset.Ico mem (mem + pages) ⊆ cover m.free
  cover : cover m'.free = Foundation.cover m.free \ Finset.Ico mem (mem + pages)
  bases : ∀ r' ∈ m'.free, ∃ r ∈ m.free, r'.base = r.base
  slab : m'.slab = m.slab
  halted : m'.halted = m.halted

theorem allocates_takePages (h : Separated m.free) (hmem : pr ∈ m.free) (hpages : pages ≤ pr.size)
    (hne : pr.base + pr.size - pages ≠ noMem) : Allocates m pages (pr.base + pr.size - pages) (m.takePages pr pages) := by
  obtain ⟨hsep, hcover, hsub, hslab, hhalted⟩ := takePages_spec h hmem hpages
  have hend : pr.base + pr.size - pages + pages = pr.base + pr.size := by omega
  refine ⟨hsep, ⟨pr, hmem, hpages⟩, hne, ?_, ?_, fun _ => takePages_base, hslab, hhalted⟩
  · rw [hend]
    exact hsub
  · rw [hend]
    exact hcover

/-- The pages below `limit` are as low as the flags ask for. -/
def Below (memflags : BitVec 32) (limit : Nat) : Prop :=
  (memflags &&& pafLower16mb ≠ 0#32 → limit ≤ boundary16) ∧ (memflags &&& pafLower1mb ≠ 0#32 → limit ≤ boundary1)

/-- What a call can do.  The test is about the first pages of the range, while the last ones are taken. -/
theorem allocPages_eq (m : Memory) {pages : Nat} {memflags : BitVec 32} {cleared : Bool} :
    (m.allocPages pages memflags cleared = (noMem, m) ∧
        ∀ pr, m.findRange pages memflags = some pr → ¬ Below memflags (pr.base + pages)) ∨
      (∃ pr, m.findRange pages memflags = some pr ∧ Below memflags (pr.base + pages) ∧
        m.allocPages pages memflags cleared = (pr.base + pr.size - pages, m.takePages pr pages)) ∨
      cleared = false ∧ ∃ m', m.allocPages pages memflags cleared = (noMem, m') ∧ m'.halted = true := by
  unfold allocPages
  rcases hfind : m.findRange pages memflags with _ | pr
  · exact .inl ⟨rfl, fun pr hpr => nomatch hpr⟩
  dsimp only
  split
  · rename_i h16
    refine .inl ⟨rfl, ?_⟩
    rintro _ ⟨⟩ hbelow
    exact absurd (hbelow.1 h16.1) (by omega)
  rename_i h16
  split
  · rename_i h1
    refine .inl ⟨rfl, ?_⟩
    rintro _ ⟨⟩ hbelow
    exact absurd (hbelow.2 h1.1) (by omega)
  rename_i h1
  split_ifs with hfails
  · exact .inr (.inr ⟨hfails.2, _, rfl, rfl⟩)
  · refine .inr (.inl ⟨pr, rfl, ⟨fun hflag => ?_, fun hflag => ?_⟩, rfl⟩)
    · exact Nat.not_lt.mp fun hlt => h16 ⟨hflag, hlt⟩
    · exact Nat.not_lt.mp fun hlt => h1 ⟨hflag, hlt⟩

theorem NoPlacement.below (hflags : NoPlacement memflags) {limit : Nat} : Below memflags limit := by
  have h16 : memflags &&& pafLower16mb = 0#32 := NoPlacement.and_eq_zero hflags (by decide)
  have h1 : memflags &&& pafLower1mb = 0#32 := NoPlacement.and_eq_zero hflags (by decide)
  exact ⟨fun h => absurd h16 h, fun h => absurd h1 h⟩

theorem allocPages_cases (hflags : NoPlacement memflags)
    (h : Separated m.free) (hzero : 0 ∉ cover m.free) (pages : Nat) (cleared : Bool) :
    (m.allocPages pages memflags cleared = (noMem, m) ∧ ∀ pr ∈ m.free, pr.size < pages) ∨
      Allocates m pages (m.allocPages pages memflags cleared).1 (m.allocPages pages memflags cleared).2 ∨
      cleared = false ∧ (m.allocPages pages memflags cleared).2.halted = true := by
  rcases m.allocPages_eq with ⟨heq, hnone⟩ | ⟨pr, hfind, -, heq⟩ | ⟨hfails, m', heq, hhalted⟩
  · have hfind : m.findRange pages memflags = none := Option.eq_none_iff_forall_ne_some.mpr
      fun pr hpr => hnone pr hpr (NoPlacement.below hflags)
    exact .inl ⟨heq, findRange_eq_none hfind⟩
  · obtain ⟨hmem, hpages⟩ := findRange_eq_some hfind
    rw [heq]
    refine .inr (.inl (allocates_takePages h hmem hpages fun heq => ?_))
    -- The first page of a range that starts at 0 would be page 0.
    have hpos := h.pos pr hmem
    refine hzero (mem_cover.mpr ⟨pr, hmem, ?_⟩)
    unfold noMem at heq
    unfold Range.limit
    omega
  · exact .inr (.inr ⟨hfails, by rw [heq]; exact hhalted⟩)

/-! ## Giving pages back -/

/-- A range is joined with the one below it if the two meet. -/
theorem joinBelow_spec {lo hi : List Range} (hlo : Separated lo)
    (hpos : 0 < pr.size) (hhi : Separated hi) (hbelow : ∀ a ∈ lo, a.limit ≤ pr.base)
    (habove : ∀ b ∈ hi, pr.limit < b.base) : Separated (joinBelow (lo ++ pr :: hi) pr) ∧
      cover (joinBelow (lo ++ pr :: hi) pr) = cover lo ∪ pr.numbers ∪ cover hi := by
  have hbaseLo : ∀ a ∈ lo, a.base < pr.base := by
    intro a ha
    have := hbelow a ha
    have := hlo.pos a ha
    unfold Range.limit at *
    omega
  have hbaseHi : ∀ b ∈ pr :: hi, pr.base ≤ b.base := by
    intro b hb
    rcases List.mem_cons.mp hb with rfl | hb
    · exact Nat.le_refl _
    · have := habove b hb
      unfold Range.limit at this
      omega
  have hcover : cover (lo ++ pr :: hi) = cover lo ∪ pr.numbers ∪ cover hi := by
    rw [cover_append, cover_cons, union_assoc]
  -- If the ranges below end before the range starts, nothing has to be joined.
  have hapart : (∀ a ∈ lo, a.limit < pr.base) → Separated (lo ++ pr :: hi) := fun h =>
    hlo.of_middle hpos hhi h habove
  rw [joinBelow, rangeBelow, takeWhile_below hbaseLo hbaseHi]
  cases lo using List.reverseRecOn with
  | nil => exact ⟨hapart (by simp), hcover⟩
  | append_singleton lo p =>
    rw [List.getLast?_concat]
    dsimp only
    obtain ⟨hlo', hp, _, hlop, _, _⟩ := hlo.middle
    have hpLo := hlo.bases.1
    split_ifs with hmeet
    · have hlist : lo ++ [p] ++ pr :: hi = lo ++ p :: pr :: hi := by simp
      rw [hlist, modifyRange_middle hpLo ?_]
      · have hremove : removeRange (lo ++ ⟨p.base, p.size + pr.size⟩ :: pr :: hi) pr.base
            = (lo ++ [⟨p.base, p.size + pr.size⟩]) ++ hi := by
          rw [List.append_cons]
          refine removeRange_middle ?_ ?_
          · intro a ha
            rcases List.mem_append.mp ha with ha | ha
            · exact hbaseLo a (by simp [ha])
            · obtain rfl : a = ⟨p.base, p.size + pr.size⟩ := by simpa using ha
              exact hbaseLo p (by simp)
          · intro b hb
            have := habove b hb
            unfold Range.limit at this
            omega
        rw [hremove]
        have hlimit : Range.limit ⟨p.base, p.size + pr.size⟩ = pr.limit := by
          unfold Range.limit at *
          dsimp only
          omega
        constructor
        · rw [List.append_assoc]
          refine hlo'.of_middle (show 0 < p.size + pr.size by omega) hhi hlop fun b hb => ?_
          rw [hlimit]
          exact habove b hb
        · rw [cover_append, cover_append, cover_cons, Range.numbers_add, hmeet]
          simp [cover_append, union_assoc]
      · intro b hb
        have hpb := hbaseHi b hb
        omega
    · refine ⟨hapart ?_, hcover⟩
      intro a ha
      have hle := hbelow a ha
      rcases List.mem_append.mp ha with ha | ha
      · have := hlop a ha
        have := hbaseLo p (by simp)
        omega
      · obtain rfl : a = p := by simpa using ha
        unfold Range.limit at hle ⊢
        omega

/-- What the slab allocator leaves: it may have taken pages for itself. -/
structure SlabTakes (m : Memory) (taken : Finset Nat) (m' : Memory) : Prop where
  separated : Separated m'.free
  free : taken ⊆ cover m.free
  cover : cover m'.free = Foundation.cover m.free \ taken
  bases : ∀ r' ∈ m'.free, ∃ r ∈ m.free, r'.base = r.base
  slab : m'.slab = m.slab ∪ taken
  halted : m'.halted = m.halted

theorem slabAlloc_spec (h : Separated m.free) {m' : Memory}
    (hslab : m.slabAlloc env = some m') :
    ∃ taken, SlabTakes m taken m' ∧ (env = .object → taken = ∅) := by
  cases env with
  | object =>
    obtain rfl : m = m' := Option.some.inj hslab
    exact ⟨∅, ⟨h, by simp, by simp, fun r hr => ⟨r, hr, rfl⟩, by simp, rfl⟩, fun _ => rfl⟩
  | noRoom => exact absurd hslab (by simp [slabAlloc])
  | newPage mapped =>
    simp only [slabAlloc] at hslab
    rcases m.allocPages_eq with ⟨heq, -⟩ | ⟨pr, hfind, -, heq⟩ | ⟨hfalse, -⟩
    · rw [heq] at hslab
      exact nomatch hslab
    · rw [heq] at hslab
      split at hslab
      · simp at hslab
      rename_i hmem
      split at hslab
      · obtain rfl := Option.some.inj hslab
        obtain ⟨hpr, hpages⟩ := findRange_eq_some hfind
        have halloc := allocates_takePages h hpr hpages hmem
        have hone : Finset.Ico (pr.base + pr.size - 1) (pr.base + pr.size - 1 + 1) = {pr.base + pr.size - 1} := by simp
        refine ⟨{pr.base + pr.size - 1}, ⟨halloc.separated, hone ▸ halloc.free, hone ▸ halloc.cover, halloc.bases, ?_,
          halloc.halted⟩, fun h => by simp at h⟩
        rw [halloc.slab, union_comm]
        rfl
      · simp at hslab
    · simp at hfalse

/-- `free_pages`: the free pages are those from before, without the ones that the slab
allocator takes, and the given ones. -/
structure Frees (m : Memory) (pageno npages : Nat) (taken : Finset Nat) (m' : Memory) : Prop where
  separated : Separated m'.free
  free : taken ⊆ cover m.free
  cover : cover m'.free = Foundation.cover m.free \ taken ∪ Finset.Ico pageno (pageno + npages)
  slab : m'.slab = m.slab ∪ taken
  halted : m'.halted = m.halted

theorem Ico_eq_numbers (base size : Nat) : Finset.Ico base (base + size) = Range.numbers ⟨base, size⟩ := rfl

section

variable (h : Separated l) (hn : 0 < npages)
    (hdisj : Disjoint (Finset.Ico pageno (pageno + npages)) (cover l))
include h hn hdisj

/-- The block goes into a list in which no range starts at its end. -/
theorem insertBlock_spec (hnone : ∀ r ∈ l, r.base ≠ pageno + npages) :
    Separated (joinBelow (insertRange l ⟨pageno, npages⟩) ⟨pageno, npages⟩) ∧
      cover (joinBelow (insertRange l ⟨pageno, npages⟩) ⟨pageno, npages⟩)
        = cover l ∪ Finset.Ico pageno (pageno + npages) := by
  obtain ⟨lo, hi, rfl, hbelow, habove⟩ := h.split_at hn hdisj
  obtain ⟨hlo, hhi, _⟩ := Separated.append_iff.mp h
  have hinsert : insertRange (lo ++ hi) ⟨pageno, npages⟩ = lo ++ ⟨pageno, npages⟩ :: hi := by
    refine insertRange_middle ?_ ?_
    · intro a ha
      have := hbelow a ha
      have := hlo.pos a ha
      unfold Range.limit at *
      show a.base < pageno
      omega
    · intro b hb
      have := habove b hb
      show pageno ≤ b.base
      omega
  rw [hinsert]
  have hapart : ∀ b ∈ hi, Range.limit ⟨pageno, npages⟩ < b.base := by
    intro b hb
    have hne := hnone b (by simp [hb])
    have := habove b hb
    show pageno + npages < b.base
    omega
  obtain ⟨hsep, hcover⟩ := joinBelow_spec hlo hn hhi hbelow hapart
  refine ⟨hsep, ?_⟩
  rw [hcover, cover_append, Ico_eq_numbers, union_right_comm]

/-- The block is joined with the range that starts at its end. -/
theorem growBlock_spec (hsearch : search l (pageno + npages) = some pr) :
    Separated (joinBelow (modifyRange l (pageno + npages) fun _ => ⟨pr.base - npages, pr.size + npages⟩)
        ⟨pr.base - npages, pr.size + npages⟩) ∧
      cover (joinBelow (modifyRange l (pageno + npages) fun _ => ⟨pr.base - npages, pr.size + npages⟩)
        ⟨pr.base - npages, pr.size + npages⟩) = cover l ∪ Finset.Ico pageno (pageno + npages) := by
  have hmem : pr ∈ l := List.mem_of_find?_eq_some hsearch
  have hbase : pr.base = pageno + npages := by simpa using List.find?_some hsearch
  obtain ⟨lo, hi, rfl⟩ := List.append_of_mem hmem
  obtain ⟨hlo, hpos, hhi, hprlo, hprhi, _⟩ := h.middle
  -- The ranges below end below the block too.
  have hbelow : ∀ a ∈ lo, a.limit ≤ pageno := by
    intro a ha
    by_contra hlt
    have hapart := hprlo a ha
    have hapos := hlo.pos a ha
    have hblock : a.limit - 1 ∈ Finset.Ico pageno (pageno + npages) := by
      rw [mem_Ico]
      omega
    refine disjoint_left.mp hdisj hblock (mem_cover.mpr ⟨a, by simp [ha], ?_⟩)
    unfold Range.limit
    omega
  have hmodify : modifyRange (lo ++ pr :: hi) (pageno + npages)
      (fun _ => ⟨pr.base - npages, pr.size + npages⟩)
      = lo ++ ⟨pageno, npages + pr.size⟩ :: hi := by
    rw [← hbase, modifyRange_middle h.bases.1 h.bases.2, hbase, Nat.add_sub_cancel, Nat.add_comm pr.size]
  have hgrown : (⟨pr.base - npages, pr.size + npages⟩ : Range) = ⟨pageno, npages + pr.size⟩ := by
    rw [hbase, Nat.add_sub_cancel, Nat.add_comm pr.size]
  have hlimit : Range.limit ⟨pageno, npages + pr.size⟩ = pr.limit := by
    unfold Range.limit
    dsimp only
    omega
  rw [hmodify, hgrown]
  have habove : ∀ b ∈ hi, Range.limit ⟨pageno, npages + pr.size⟩ < b.base := by
    rw [hlimit]
    exact hprhi
  obtain ⟨hsep, hcover⟩ := joinBelow_spec hlo (show 0 < npages + pr.size by omega) hhi hbelow habove
  refine ⟨hsep, ?_⟩
  rw [hcover, Range.numbers_add, cover_append, cover_cons, Ico_eq_numbers, ← hbase]
  change cover lo ∪ (_ ∪ pr.numbers) ∪ cover hi = _
  ac_rfl

end

theorem freePages_spec (h : Separated m.free)
    (hn : 0 < npages) (hdisj : Disjoint (Finset.Ico pageno (pageno + npages)) (cover m.free))
    (hrun : (m.freePages env pageno npages).halted = false) :
    ∃ taken, Frees m pageno npages taken (m.freePages env pageno npages) ∧
      (env = .object → taken = ∅) := by
  unfold freePages at hrun ⊢
  rcases hsearch : search m.free (pageno + npages) with _ | pr
  · rw [hsearch] at hrun
    rcases hslab : m.slabAlloc env with _ | m1
    · rw [hslab] at hrun
      exact absurd hrun (by simp [panic])
    obtain ⟨taken, htakes, hobject⟩ := slabAlloc_spec h hslab
    have hnone : ∀ r ∈ m1.free, r.base ≠ pageno + npages := by
      intro r hr
      obtain ⟨r', hr', hbase⟩ := htakes.bases r hr
      rw [search, List.find?_eq_none] at hsearch
      have := hsearch r' hr'
      rw [hbase]
      simpa using this
    have hdisj1 : Disjoint (Finset.Ico pageno (pageno + npages)) (cover m1.free) := by
      rw [htakes.cover]
      exact hdisj.mono_right sdiff_subset
    obtain ⟨hsep, hcover⟩ := insertBlock_spec htakes.separated hn hdisj1 hnone
    refine ⟨taken, ⟨hsep, htakes.free, ?_, htakes.slab, htakes.halted⟩, hobject⟩
    rw [← htakes.cover]
    exact hcover
  · obtain ⟨hsep, hcover⟩ := growBlock_spec h hn hdisj hsearch
    refine ⟨∅, ⟨hsep, by simp, ?_, by simp, rfl⟩, fun _ => rfl⟩
    rw [sdiff_empty]
    exact hcover

theorem freeMem_spec (h : Separated m.free) {base : Nat}
    (hdisj : Disjoint (Finset.Ico base (base + clicks)) (cover m.free))
    (hrun : (m.freeMem env base clicks).halted = false) :
    ∃ taken, Frees m base clicks taken (m.freeMem env base clicks) ∧ (env = .object → taken = ∅) := by
  unfold freeMem at hrun ⊢
  split_ifs with hclicks
  · subst hclicks
    exact ⟨∅, ⟨h, by simp, by simp, by simp, rfl⟩, fun _ => rfl⟩
  · rw [if_neg hclicks] at hrun
    exact freePages_spec h (Nat.pos_of_ne_zero hclicks) hdisj hrun

theorem allocMem_eq (hflags : NoPlacement memflags) (env : SlabEnv) (clicks : Nat)
    (cleared : Bool) : m.allocMem env clicks memflags cleared = m.allocPages clicks memflags cleared := by
  have halign : memflags &&& pafAlign64k = 0#32 := NoPlacement.and_eq_zero hflags (by decide)
  rw [allocMem, if_neg (by simp [halign])]

/-- The pages of the chunks are free at the start. -/
theorem memInit_spec {chunks : List Range}
    (hdisj : chunks.Pairwise fun a b => Disjoint a.numbers b.numbers) (hzero : 0 ∉ cover chunks) :
    Separated (memInit chunks).free ∧ cover (memInit chunks).free = cover chunks ∧
      (memInit chunks).slab = ∅ ∧ (memInit chunks).halted = false := by
  induction chunks with
  | nil => exact ⟨Separated.nil, rfl, rfl, rfl⟩
  | cons chunk chunks ih =>
    obtain ⟨hfirst, hrest⟩ := List.pairwise_cons.mp hdisj
    rw [cover_cons, notMem_union] at hzero
    obtain ⟨hsep, hcover, hslab, hhalted⟩ := ih hrest hzero.2
    have hblock : Disjoint (Finset.Ico chunk.base (chunk.base + chunk.size))
        (cover (memInit chunks).free) := by
      rw [hcover, disjoint_left]
      intro x hx hx'
      obtain ⟨r, hr, hxr⟩ := mem_cover.mp hx'
      exact disjoint_left.mp (hfirst r hr) hx (Range.mem_numbers.mpr hxr)
    have hgo : ((memInit chunks).freeMem .object chunk.base chunk.size).halted = false := by
      unfold freeMem
      split
      · exact hhalted
      · unfold freePages
        split
        · exact hhalted
        · exact hhalted
    obtain ⟨taken, hfrees, htaken⟩ := freeMem_spec hsep hblock hgo
    obtain rfl := htaken rfl
    refine ⟨hfrees.separated, ?_, ?_, hgo⟩
    · rw [cover_cons, union_comm]
      have hcov := hfrees.cover
      rw [sdiff_empty, hcover] at hcov
      exact hcov
    · have hsl := hfrees.slab
      rw [union_empty, hslab] at hsl
      exact hsl

end Memory

/-! ## Runs -/

/-- The memory and the pages that have been handed out and not given back. -/
structure Pages where
  mem : Memory
  held : Finset Nat

/-- The calls of the allocator, with what the rest of VM does in them. -/
inductive MemOp where
  | alloc (env : SlabEnv) (clicks : Nat) (memflags : BitVec 32) (cleared : Bool)
  | free (env : SlabEnv) (base clicks : Nat)

def MemOp.run (c : Pages) : MemOp → Pages
  | .alloc env clicks memflags cleared =>
      let (mem, m) := c.mem.allocMem env clicks memflags cleared
      if mem = noMem then { c with mem := m }
      else ⟨m, c.held ∪ Finset.Ico mem (mem + clicks)⟩
  | .free env base clicks =>
      ⟨c.mem.freeMem env base clicks, c.held \ Finset.Ico base (base + clicks)⟩

/-- Memory may be asked for anywhere, and pages that have been handed out given back. -/
def MemOp.Allowed (c : Pages) : MemOp → Prop
  | .alloc _ _ memflags _ => NoPlacement memflags
  | .free _ base clicks => Finset.Ico base (base + clicks) ⊆ c.held

instance (c : Pages) (op : MemOp) : Decidable (op.Allowed c) := by
  unfold MemOp.Allowed
  split <;> infer_instance

/-- A run of allowed calls that return. -/
def MemReaches : Pages → Pages → Prop :=
  ReflTransGen fun c c' => ∃ op : MemOp, op.Allowed c ∧ c' = op.run c ∧ c'.mem.halted = false

/-- Every page of the memory is free, handed out or a page of the slab allocator, and only
one of these. -/
structure PagesOk (total : Finset Nat) (c : Pages) : Prop where
  separated : Separated c.mem.free
  held : Disjoint (cover c.mem.free) c.held
  slab : Disjoint (cover c.mem.free) c.mem.slab
  heldSlab : Disjoint c.held c.mem.slab
  all : cover c.mem.free ∪ c.held ∪ c.mem.slab = total

namespace PagesOk

variable {total : Finset Nat} {c : Pages}

variable (h : PagesOk total c)
include h

theorem zero (hzero : 0 ∉ total) : 0 ∉ cover c.mem.free := by
  rw [← h.all] at hzero
  exact fun hmem => hzero (mem_union_left _ (mem_union_left _ hmem))

theorem alloc {mem : Nat} (halloc : c.mem.Allocates clicks mem m) :
    PagesOk total ⟨m, c.held ∪ Finset.Ico mem (mem + clicks)⟩ := by
  have hblock := halloc.free
  refine ⟨halloc.separated, ?_, ?_, ?_, ?_⟩
  · rw [halloc.cover, disjoint_union_right]
    exact ⟨h.held.mono_left sdiff_subset, sdiff_disjoint⟩
  · rw [halloc.cover, halloc.slab]
    exact h.slab.mono_left sdiff_subset
  · rw [halloc.slab, disjoint_union_left]
    exact ⟨h.heldSlab, h.slab.mono_left hblock⟩
  · rw [halloc.cover, halloc.slab, ← h.all]
    congr 1
    rw [union_comm c.held, ← union_assoc, sdiff_union_of_subset hblock]

theorem free {base : Nat} {taken : Finset Nat}
    (hheld : Finset.Ico base (base + clicks) ⊆ c.held) (hfrees : c.mem.Frees base clicks taken m) :
    PagesOk total ⟨m, c.held \ Finset.Ico base (base + clicks)⟩ := by
  have htaken := hfrees.free
  refine ⟨hfrees.separated, ?_, ?_, ?_, ?_⟩
  · rw [hfrees.cover, disjoint_union_left]
    refine ⟨h.held.mono sdiff_subset sdiff_subset, disjoint_sdiff⟩
  · rw [hfrees.cover, hfrees.slab, disjoint_union_left, disjoint_union_right,
      disjoint_union_right]
    refine ⟨⟨h.slab.mono_left sdiff_subset, sdiff_disjoint⟩, h.heldSlab.mono_left hheld, ?_⟩
    exact (h.held.mono htaken hheld).symm
  · rw [hfrees.slab, disjoint_union_right]
    exact ⟨h.heldSlab.mono_left sdiff_subset,
      (h.held.mono htaken sdiff_subset).symm⟩
  · rw [← h.all]
    ext x
    have hx := @htaken x
    have hx' := @hheld x
    rw [hfrees.cover, hfrees.slab]
    by_cases hfree : x ∈ cover c.mem.free <;> by_cases hh : x ∈ c.held <;>
      by_cases hb : x ∈ Finset.Ico base (base + clicks) <;> by_cases ht : x ∈ taken <;> simp_all

end PagesOk

theorem MemOp.pagesOk {total : Finset Nat} (hzero : 0 ∉ total) {c : Pages} (h : PagesOk total c)
    {op : MemOp} (hop : op.Allowed c) (hrun : (op.run c).mem.halted = false) :
    PagesOk total (op.run c) := by
  have hzero' := h.zero hzero
  cases op with
  | alloc env clicks memflags cleared =>
    have hcases := Memory.allocPages_cases hop h.separated hzero' clicks cleared
    simp only [MemOp.run, Memory.allocMem_eq hop] at hrun ⊢
    generalize c.mem.allocPages clicks memflags cleared = r at hcases hrun
    obtain ⟨mem, m⟩ := r
    rcases hcases with ⟨heq, _⟩ | halloc | ⟨_, hhalted⟩
    · obtain ⟨rfl, rfl⟩ := Prod.mk.inj heq
      exact h
    · rw [if_neg halloc.ne_noMem]
      exact h.alloc halloc
    · exfalso
      split at hrun <;> exact nomatch hhalted.symm.trans hrun
  | free env base clicks =>
    obtain ⟨taken, hfrees, _⟩ := Memory.freeMem_spec h.separated
      (h.held.symm.mono_left hop) hrun
    exact h.free hop hfrees

/-- In every state of a run from `mem_init`, where page 0 is not a page of the memory: the
free ranges are separated; every page is free, handed out or with the slab allocator, and
their number is constant; `alloc_mem` fails iff no range is large enough, and else takes
exactly the pages it returns; `free_mem` adds exactly the pages it is given, while the slab
allocator may take free ones. -/
theorem pageAllocator_correct {chunks : List Range}
    (hdisj : chunks.Pairwise fun a b => Disjoint a.numbers b.numbers) (hzero : 0 ∉ cover chunks)
    {c : Pages} (hrun : MemReaches ⟨Memory.memInit chunks, ∅⟩ c) :
    PagesOk (cover chunks) c ∧
      (cover c.mem.free).card + c.held.card + c.mem.slab.card = (cover chunks).card ∧
      (∀ env clicks memflags cleared, NoPlacement memflags →
        (c.mem.allocMem env clicks memflags cleared).2.halted = false →
        ((c.mem.allocMem env clicks memflags cleared).1 = noMem ↔
            ¬ ∃ pr ∈ c.mem.free, clicks ≤ pr.size) ∧
          ((c.mem.allocMem env clicks memflags cleared).1 = noMem →
            (c.mem.allocMem env clicks memflags cleared).2 = c.mem) ∧
          ((c.mem.allocMem env clicks memflags cleared).1 ≠ noMem →
            c.mem.Allocates clicks (c.mem.allocMem env clicks memflags cleared).1
              (c.mem.allocMem env clicks memflags cleared).2)) ∧
      ∀ env base clicks, Finset.Ico base (base + clicks) ⊆ c.held →
        (c.mem.freeMem env base clicks).halted = false →
        ∃ taken, c.mem.Frees base clicks taken (c.mem.freeMem env base clicks) ∧
          (env = .object → taken = ∅) := by
  have hok : PagesOk (cover chunks) c ∧ c.mem.halted = false := by
    induction hrun with
    | refl =>
      obtain ⟨hsep, hcover, hslab, hhalted⟩ := Memory.memInit_spec hdisj hzero
      refine ⟨⟨hsep, by simp, by simp [hslab], by simp, ?_⟩, hhalted⟩
      simp [hcover, hslab]
    | tail _ hstep ih =>
      obtain ⟨op, hop, rfl, hgo⟩ := hstep
      exact ⟨op.pagesOk hzero ih.1 hop hgo, hgo⟩
  obtain ⟨hpages, _⟩ := hok
  have hzero' := hpages.zero hzero
  refine ⟨hpages, ?_, ?_, ?_⟩
  · rw [← hpages.all, card_union_of_disjoint, card_union_of_disjoint hpages.held]
    exact disjoint_union_left.mpr ⟨hpages.slab, hpages.heldSlab⟩
  · intro env clicks memflags cleared hflags hgo
    rw [Memory.allocMem_eq hflags] at hgo ⊢
    have hcases := Memory.allocPages_cases hflags hpages.separated hzero' clicks cleared
    rcases hcases with ⟨heq, hsmall⟩ | halloc | ⟨_, hhalted⟩
    · rw [heq]
      refine ⟨⟨fun _ => ?_, fun _ => rfl⟩, fun _ => rfl, fun hne => absurd rfl hne⟩
      rintro ⟨pr, hpr, hsize⟩
      have := hsmall pr hpr
      omega
    · refine ⟨⟨fun heq => absurd heq halloc.ne_noMem, fun hnone => absurd halloc.enough hnone⟩,
        fun heq => absurd heq halloc.ne_noMem, fun _ => halloc⟩
    · exact nomatch hhalted.symm.trans hgo
  · intro env base clicks hheld hgo
    exact Memory.freeMem_spec hpages.separated (hpages.held.symm.mono_left hheld) hgo

/-- Three pages of a memory of eight are handed out, and one comes back while the slab
allocator takes a page. -/
theorem pageAllocator_correct_eightPages :
    PagesOk (cover [⟨1, 8⟩])
      (MemOp.run (MemOp.run ⟨Memory.memInit [⟨1, 8⟩], ∅⟩ (.alloc .object 3 pafClear true))
        (.free (.newPage true) 7 1)) := by
  refine (pageAllocator_correct (List.pairwise_singleton _ ⟨1, 8⟩) (by decide)
    (ReflTransGen.tail (ReflTransGen.tail ReflTransGen.refl
      ⟨.alloc .object 3 pafClear true, ?_, rfl, ?_⟩) ⟨.free (.newPage true) 7 1, ?_, rfl, ?_⟩)).1
  all_goals decide

/-- A memory that starts at page 0: the range has the pages that are asked for, but the
result is NO_MEM, and the pages are gone. -/
theorem allocMem_pageZero :
    (Memory.memInit [⟨0, 4⟩]).free = [⟨0, 4⟩] ∧
      ((Memory.memInit [⟨0, 4⟩]).allocMem .object 4 0#32 true).1 = noMem ∧
      ((Memory.memInit [⟨0, 4⟩]).allocMem .object 4 0#32 true).2.free = [] := by
  decide

/-! ## Flags that say where -/

namespace Memory

variable {n : Nat} {cleared : Bool}

/-- The pages from `b` on are free, and they are where the flags ask for them. -/
def Placement (m : Memory) (n : Nat) (memflags : BitVec 32) (b : Nat) : Prop :=
  Finset.Ico b (b + n) ⊆ cover m.free ∧ (memflags &&& pafAlign64k ≠ 0#32 → alignClicks ∣ b) ∧ Below memflags (b + n)

/-- What a call with flags should do: a block is where the flags ask for it, and its pages are
those that have left the free ones; without a block there is no place for it. -/
def Constrained (m : Memory) (n : Nat) (memflags : BitVec 32) (out : Nat × Memory) : Prop :=
  (out.1 ≠ noMem → (memflags &&& pafAlign64k ≠ 0#32 → alignClicks ∣ out.1) ∧ Below memflags (out.1 + n) ∧
    cover m.free \ cover out.2.free = Finset.Ico out.1 (out.1 + n)) ∧
  (out.1 = noMem → ¬ ∃ b, m.Placement n memflags b)

/-- Where the range of `alloc_pages` has a place, from the number `b` on. -/
theorem placement_of_findRange {b : Nat} (hfind : m.findRange pages memflags = some pr) (hbelow : Below memflags (pr.base + pages))
    (hb : pr.base ≤ b ∧ b + n ≤ pr.base + pages) (halign : memflags &&& pafAlign64k ≠ 0#32 → alignClicks ∣ b) :
    m.Placement n memflags b := by
  obtain ⟨hpr, hpages⟩ := findRange_eq_some hfind
  refine ⟨fun x hx => ?_, halign, fun hflag => ?_, fun hflag => ?_⟩
  · rw [mem_Ico] at hx
    refine mem_cover.mpr ⟨pr, hpr, ?_⟩
    unfold Range.limit
    omega
  · exact Nat.le_trans hb.2 (hbelow.1 hflag)
  · exact Nat.le_trans hb.2 (hbelow.2 hflag)

/-- Without alignment. -/
theorem allocPages_constrained_iff (h : Separated m.free) (hn : 0 < n) (halign : memflags &&& pafAlign64k = 0#32)
    (hrun : (m.allocPages n memflags cleared).2.halted = false) :
    m.Constrained n memflags (m.allocPages n memflags cleared) ↔ (¬ ∃ b, m.Placement n memflags b) ∨
      ∀ pr, m.findRange n memflags = some pr → n < pr.limit ∧ Below memflags pr.limit := by
  rcases m.allocPages_eq with ⟨heq, hnone⟩ | ⟨pr, hfind, hbelow, heq⟩ | ⟨-, m', heq, hhalted⟩
  · rw [heq]
    refine ⟨fun hcon => .inl (hcon.2 rfl), fun hor => ⟨fun hne => absurd rfl hne, fun _ => ?_⟩⟩
    rcases hor with hno | hall
    · exact hno
    rintro ⟨b, hb⟩
    obtain ⟨pr, hpr, hbase, hlimit⟩ := h.block hn hb.1
    unfold Range.limit at hlimit
    rcases hfind : m.findRange n memflags with _ | pr'
    · exact absurd (findRange_eq_none hfind pr hpr) (by omega)
    · -- A range that ends below the boundary would have been taken.
      have hsize' := (findRange_eq_some hfind).2
      obtain ⟨-, h16, h1⟩ := hall pr' hfind
      unfold Range.limit at h16 h1
      exact hnone pr' hfind ⟨fun hflag => by have := h16 hflag; omega, fun hflag => by have := h1 hflag; omega⟩
  · obtain ⟨hpr, hsize⟩ := findRange_eq_some hfind
    have hend : pr.base + pr.size - n + n = pr.limit := by
      unfold Range.limit
      omega
    have hplace : ∃ b, m.Placement n memflags b :=
      ⟨pr.base, placement_of_findRange hfind hbelow (by omega) fun hflag => absurd halign hflag⟩
    rw [heq]
    unfold Constrained
    simp only [hend, hplace, not_true_eq_false, false_or, imp_false]
    constructor
    · rintro ⟨hblock, hne⟩ _ hfind'
      obtain rfl := Option.some.inj (hfind.symm.trans hfind')
      refine ⟨?_, (hblock hne).2.1⟩
      unfold noMem at hne
      omega
    · intro hall
      obtain ⟨hlt, hlimit⟩ := hall pr hfind
      have hne : pr.base + pr.size - n ≠ noMem := by
        unfold noMem
        omega
      have halloc := allocates_takePages h hpr hsize hne
      refine ⟨fun _ => ⟨fun hflag => absurd halign hflag, hlimit, ?_⟩, hne⟩
      rw [halloc.cover, Finset.sdiff_sdiff_eq_self halloc.free, hend]
  · rw [heq] at hrun
    exact nomatch hhalted.symm.trans hrun

/-- A block that is aligned has lost more than its pages: 16 more are taken, and only those
before it are given back. -/
theorem allocMem_aligned_iff (h : Separated m.free) (hn : 0 < n) (halign : memflags &&& pafAlign64k ≠ 0#32)
    (hrun : (m.allocMem env n memflags cleared).2.halted = false) :
    m.Constrained n memflags (m.allocMem env n memflags cleared) ↔ ¬ ∃ b, m.Placement n memflags b := by
  unfold allocMem at hrun ⊢
  rw [if_pos halign] at hrun ⊢
  rcases m.allocPages_eq with ⟨heq, hnone⟩ | ⟨pr, hfind, hbelow, heq⟩ | ⟨-, m', heq, hhalted⟩
  · rw [heq]
    exact ⟨fun hcon => hcon.2 rfl, fun hno => ⟨fun hne => absurd rfl hne, fun _ => hno⟩⟩
  · obtain ⟨hpr, hsize⟩ := findRange_eq_some hfind
    have hplace : ∃ b, m.Placement n memflags b := by
      refine ⟨(pr.base + 15) / 16 * 16, placement_of_findRange hfind hbelow ?_ fun _ => Nat.dvd_mul_left ..⟩
      unfold alignClicks
      omega
    simp only [hplace, not_true_eq_false, iff_false]
    rw [heq] at hrun ⊢
    dsimp only at hrun ⊢
    intro hcon
    split at hcon
    · rename_i hmem
      exact hcon.2 hmem hplace
    rename_i hmem
    rw [if_neg hmem] at hrun
    have halloc := allocates_takePages h hpr hsize hmem
    have hlimit : pr.base + pr.size - (n + alignClicks) + n + 16 = pr.limit := by
      unfold alignClicks Range.limit at *
      omega
    generalize pr.base + pr.size - (n + alignClicks) = mem at *
    -- The last page of the range has left, but it is not in the block.
    have hlast : pr.limit - 1 ∈ cover m.free := by
      have hpos := h.pos pr hpr
      refine mem_cover.mpr ⟨pr, hpr, ?_⟩
      unfold Range.limit
      omega
    have hleft : ∀ mem m', m.Constrained n memflags (mem, m') → mem ≠ noMem → mem + n < pr.limit →
        pr.limit - 1 ∉ cover m'.free → False := by
      intro mem m' hcon hne hlt hnot
      have hin : pr.limit - 1 ∈ Finset.Ico mem (mem + n) := by
        rw [← (hcon.1 hne).2.2]
        exact mem_sdiff.mpr ⟨hlast, hnot⟩
      rw [mem_Ico] at hin
      omega
    have hnot : pr.limit - 1 ∉ cover (m.takePages pr (n + alignClicks)).free := by
      rw [halloc.cover, mem_sdiff, mem_Ico]
      unfold alignClicks at *
      omega
    split_ifs at hcon with hpos
    · rw [if_pos hpos] at hrun
      have hdisj : Disjoint (Finset.Ico mem (mem + (alignClicks - mem % alignClicks)))
          (cover (m.takePages pr (n + alignClicks)).free) := by
        rw [halloc.cover]
        refine disjoint_sdiff.mono_left (Ico_subset_Ico_right ?_)
        omega
      obtain ⟨taken, hfrees, -⟩ := freeMem_spec halloc.separated hdisj hrun
      refine hleft _ _ hcon ?_ ?_ ?_
      · unfold noMem at *
        omega
      · unfold alignClicks at *
        omega
      · rw [hfrees.cover, mem_union, mem_sdiff, mem_Ico]
        rintro (hin | hin)
        · exact hnot hin.1
        · unfold alignClicks at *
          omega
    · exact hleft _ _ hcon hmem (by omega) hnot
  · rw [heq] at hrun
    exact nomatch hhalted.symm.trans hrun

/-- A call with flags does what it should exactly if there is no place, or if no alignment is asked
for and the range that is used ends as low as the flags ask for (and is not the pages from 0 on). -/
theorem allocMem_constrained_iff (h : Separated m.free) (hn : 0 < n)
    (hrun : (m.allocMem env n memflags cleared).2.halted = false) :
    m.Constrained n memflags (m.allocMem env n memflags cleared) ↔ (¬ ∃ b, m.Placement n memflags b) ∨
      memflags &&& pafAlign64k = 0#32 ∧
        ∀ pr, m.findRange n memflags = some pr → n < pr.limit ∧ Below memflags pr.limit := by
  by_cases halign : memflags &&& pafAlign64k = 0#32
  · have heq : m.allocMem env n memflags cleared = m.allocPages n memflags cleared := if_neg (not_not.mpr halign)
    rw [heq] at hrun ⊢
    simp only [halign, true_and]
    exact allocPages_constrained_iff h hn halign hrun
  · simp only [halign, false_and, or_false]
    exact allocMem_aligned_iff h hn halign hrun

/-- Ten pages below 1 MB, of a range that ends there. -/
theorem allocMem_constrained_low :
    Constrained ⟨[⟨200, 56⟩], ∅, false⟩ 10 pafLower1mb (allocMem ⟨[⟨200, 56⟩], ∅, false⟩ .object 10 pafLower1mb true) := by
  refine (allocMem_constrained_iff ⟨by simp, by simp⟩ (by decide) (by decide)).mpr (.inr ⟨by decide, ?_⟩)
  rintro _ ⟨⟩
  exact ⟨by decide, by decide, by decide⟩

/-- Ten pages below 1 MB are taken off the end of a range, above 1 MB; and 32 pages leave for 16 that
have to be aligned. -/
theorem allocMem_unconstrained :
    (allocMem ⟨[⟨200, 100⟩], ∅, false⟩ .object 10 pafLower1mb true).1 = 290 ∧
      ¬ Constrained ⟨[⟨200, 100⟩], ∅, false⟩ 10 pafLower1mb (allocMem ⟨[⟨200, 100⟩], ∅, false⟩ .object 10 pafLower1mb true) ∧
      allocMem ⟨[⟨16, 64⟩], ∅, false⟩ .object 16 pafAlign64k true = (48, ⟨[⟨16, 32⟩], ∅, false⟩) := by
  refine ⟨by decide, fun hcon => ?_, rfl⟩
  exact nomatch (hcon.1 (by decide)).2.1.2 (by decide)

end Memory

end Minix.Vm
