/-
  Vm/Layout.lean --- the layout of address spaces over runs of requests.

  The regions of a process are in ascending order, do not overlap, and have page aligned
  places and lengths; the physical regions of each lie inside it.  The asserts of
  `region_find_slot` are compiled out, so that this rests on what the requests let through:
  a length of 0, an address inside a page, a remap shorter than what it maps, a heap that
  grows past the top.  The references to blocks have to be counted right as well, for else
  the block of a region is freed and comes back with another length.
-/
import Mathlib.Algebra.Order.BigOperators.Group.Finset
import Mathlib.Logic.Relation
import Minix.Vm.Region

set_option autoImplicit false

namespace Minix.Vm

open Minix.Foundation Relation Function List Finset

variable {block : Nat → PhysBlock} {first last length v b len : Nat} {l rest : List PhysRegion}
  {pr : PhysRegion} {r vr : VirRegion} {count : Nat → Nat} {s : VmState}

/-! ## Well-formed address spaces -/

/-- Physical regions in the part of a region from `first` to `last`: in ascending order, not
overlapping, with blocks that are not empty and all different. -/
structure PhysOk (block : Nat → PhysBlock) (first last : Nat) (l : List PhysRegion) : Prop where
  inside : ∀ pr ∈ l, first ≤ pr.offset ∧ pr.offset + (block pr.ph).length ≤ last
  pos : ∀ pr ∈ l, 0 < (block pr.ph).length
  sorted : l.Pairwise fun a b => a.offset + (block a.ph).length ≤ b.offset ∧ a.ph ≠ b.ph

/-- A region in its place. -/
structure RegionOk (block : Nat → PhysBlock) (r : VirRegion) : Prop where
  vaddr : r.vaddr % pageSize = 0
  length : r.length % pageSize = 0
  pos : 0 < r.length
  top : r.vaddr + r.length ≤ dataTop
  phys : PhysOk block 0 r.length r.phys

/-- The address space of a process: regions in ascending order that do not overlap. -/
structure AddressSpaceOk (block : Nat → PhysBlock) (regions : List VirRegion) : Prop where
  region : ∀ r ∈ regions, RegionOk block r
  sorted : regions.Pairwise fun a b => a.vaddr + a.length ≤ b.vaddr

theorem PhysOk.congr {block' : Nat → PhysBlock}
    (h : PhysOk block first last l) (hlen : ∀ pr ∈ l, (block' pr.ph).length = (block pr.ph).length) :
    PhysOk block' first last l where
  inside pr hpr := by rw [hlen pr hpr]; exact h.inside pr hpr
  pos pr hpr := by rw [hlen pr hpr]; exact h.pos pr hpr
  sorted := by
    refine h.sorted.imp_of_mem ?_
    intro a b ha _ hab
    rw [hlen a ha]
    exact hab

theorem PhysOk.tail (h : PhysOk block first last (pr :: l)) : PhysOk block first last l :=
  ⟨fun x hx => h.inside x (mem_cons_of_mem _ hx), fun x hx => h.pos x (mem_cons_of_mem _ hx),
    (pairwise_cons.mp h.sorted).2⟩

/-! ## Places for regions -/

theorem AddressSpaceOk.tail {rest : List VirRegion}
    (h : AddressSpaceOk block (r :: rest)) : AddressSpaceOk block rest :=
  ⟨fun x hx => h.region x (mem_cons_of_mem _ hx), (pairwise_cons.mp h.sorted).2⟩

theorem AddressSpaceOk.gapEnd_le {regions : List VirRegion} (h : AddressSpaceOk block regions) :
    VmState.gapEnd regions ≤ dataTop ∧ ∀ r ∈ regions, VmState.gapEnd regions ≤ r.vaddr := by
  cases regions with
  | nil => exact ⟨Nat.le_refl _, by simp⟩
  | cons first rest =>
    have hfirst := h.region first (by simp)
    have htop := hfirst.top
    refine ⟨show first.vaddr ≤ dataTop by omega, ?_⟩
    intro r hr
    show first.vaddr ≤ r.vaddr
    rcases mem_cons.mp hr with rfl | hr
    · exact Nat.le_refl _
    · have hapart := (pairwise_cons.mp h.sorted).1 r hr
      omega

namespace VmState

theorem freeVrange_some {minv maxv rangestart rangeend : Nat}
    (h : freeVrange minv maxv length rangestart rangeend = some v) :
    v = max rangestart minv ∧ v < min rangeend maxv ∧ v + length ≤ min rangeend maxv := by
  unfold freeVrange at h
  dsimp only at h
  split at h
  · obtain rfl := Option.some.inj h
    omega
  · simp at h

theorem freeVrange_none {minv maxv rangestart rangeend : Nat}
    (h : freeVrange minv maxv length rangestart rangeend = none) (hpos : 0 < length)
    (hmin : minv ≤ v) (hmax : v + length ≤ maxv) (hstart : rangestart ≤ v) : rangeend < v + length := by
  unfold freeVrange at h
  dsimp only at h
  split at h
  · simp at h
  · omega

/-- The pages from `v` on are in no region. -/
def RangeFree (regions : List VirRegion) (v length : Nat) : Prop :=
  ∀ r ∈ regions, r.vaddr + r.length ≤ v ∨ v + length ≤ r.vaddr

/-- Where a place for a region is: between the first `k` regions and the others. -/
structure Slot (regions : List VirRegion) (minv maxv length v k : Nat) : Prop where
  min : minv ≤ v
  max : v + length ≤ maxv
  top : v + length ≤ dataTop
  aligned : minv % pageSize = 0 → v % pageSize = 0
  before : ∀ r ∈ regions.take k, r.vaddr + r.length ≤ v
  after : ∀ r ∈ regions.drop k, v + length ≤ r.vaddr

theorem u32_of_le_dataTop {n : Nat} (h : n ≤ dataTop) : u32 n = n := by
  unfold dataTop at h
  unfold u32
  omega

section FindSlot

variable {block : Nat → PhysBlock} {minv maxv length : Nat}

theorem max_aligned {a : Nat} (ha : a % pageSize = 0) (hb : b % pageSize = 0) :
    max a b % pageSize = 0 := by
  rcases Nat.le_total a b with h | h
  · rwa [Nat.max_eq_right h]
  · rwa [Nat.max_eq_left h]

theorem findAfter_some {regions : List VirRegion} (h : AddressSpaceOk block regions) {k j : Nat}
    (hfind : findAfter minv maxv length regions k = some (v, j)) :
    ∃ i, 0 < i ∧ j = k + i ∧ Slot regions minv maxv length v i := by
  induction regions generalizing k with
  | nil => exact absurd hfind (by simp [findAfter])
  | cons vr rest ih =>
    have hvr := h.region vr (by simp)
    have hend : u32 (vr.vaddr + vr.length) = vr.vaddr + vr.length := u32_of_le_dataTop hvr.top
    unfold findAfter at hfind
    rw [hend] at hfind
    rcases hrange : freeVrange minv maxv length (vr.vaddr + vr.length) (gapEnd rest) with _ | w
    · rw [hrange] at hfind
      obtain ⟨i, hi, rfl, hslot⟩ := ih h.tail hfind
      refine ⟨i + 1, by omega, by omega, hslot.min, hslot.max, hslot.top, hslot.aligned, ?_, hslot.after⟩
      intro r hr
      rcases mem_cons.mp hr with rfl | hr
      · -- The place is after the first of the other regions.
        cases rest with
        | nil => exact absurd hfind (by simp [findAfter])
        | cons next rest =>
          have hbefore := hslot.before next (by
            obtain ⟨i, rfl⟩ := Nat.exists_eq_succ_of_ne_zero (Nat.pos_iff_ne_zero.mp hi)
            simp)
          have hapart := (pairwise_cons.mp h.sorted).1 next (by simp)
          omega
      · exact hslot.before r hr
    · rw [hrange] at hfind
      obtain ⟨rfl, rfl⟩ : w = v ∧ k + 1 = j := by simpa using hfind
      obtain ⟨hw, hlt, hle⟩ := freeVrange_some hrange
      obtain ⟨hgap, hafter⟩ := h.tail.gapEnd_le
      refine ⟨1, by omega, rfl, by omega, by omega, by omega, ?_, ?_, ?_⟩
      · intro hmin
        rw [hw]
        refine max_aligned ?_ hmin
        rw [Nat.add_mod, hvr.vaddr, hvr.length]
        rfl
      · intro r hr
        obtain rfl : r = vr := by simpa using hr
        omega
      · intro r hr
        have := hafter r (by simpa using hr)
        omega

theorem findSlot_some {regions : List VirRegion} (h : AddressSpaceOk block regions) {k : Nat}
    (hfind : findSlot regions minv maxv length = some (v, k)) :
    Slot regions minv maxv length v k := by
  unfold findSlot at hfind
  rcases hrange : freeVrange minv maxv length 0 (gapEnd regions) with _ | w
  · rw [hrange] at hfind
    obtain ⟨i, _, rfl, hslot⟩ := findAfter_some h hfind
    rw [Nat.zero_add]
    exact hslot
  · rw [hrange] at hfind
    obtain ⟨rfl, rfl⟩ : w = v ∧ 0 = k := by simpa using hfind
    obtain ⟨hw, hlt, hle⟩ := freeVrange_some hrange
    obtain ⟨hgap, hafter⟩ := h.gapEnd_le
    refine ⟨by omega, by omega, by omega, ?_, by simp, ?_⟩
    · intro hmin
      rw [hw]
      exact max_aligned (by decide) hmin
    · intro r hr
      have := hafter r (by simpa using hr)
      omega

theorem findAfter_cons_none {rest : List VirRegion} {k : Nat} (htop : vr.vaddr + vr.length ≤ dataTop)
    (h : findAfter minv maxv length (vr :: rest) k = none) :
    freeVrange minv maxv length (vr.vaddr + vr.length) (gapEnd rest) = none ∧ findAfter minv maxv length rest (k + 1) = none := by
  unfold findAfter at h
  rw [u32_of_le_dataTop htop] at h
  split at h
  · simp at h
  · exact ⟨‹_›, h⟩

/-- The loop finds nothing: every range from the end of the first region on is taken. -/
theorem findAfter_none {rest : List VirRegion} (h : AddressSpaceOk block (vr :: rest))
    (hpos : 0 < length) {k : Nat} (hfind : findAfter minv maxv length (vr :: rest) k = none)
    (hmin : minv ≤ v) (hmax : v + length ≤ maxv) (htop : v + length ≤ dataTop)
    (hstart : vr.vaddr + vr.length ≤ v) : ¬ RangeFree rest v length := by
  induction rest generalizing vr k with
  | nil =>
    have hrange := (findAfter_cons_none (h.region vr (by simp)).top hfind).1
    exact absurd (freeVrange_none hrange hpos hmin hmax hstart) (Nat.not_lt.mpr htop)
  | cons next rest ih =>
    obtain ⟨hrange, hrest⟩ := findAfter_cons_none (h.region vr (by simp)).top hfind
    have hlt : next.vaddr < v + length := freeVrange_none hrange hpos hmin hmax hstart
    intro hfree
    rcases hfree next (by simp) with hbelow | habove
    · exact ih h.tail hrest hbelow fun r hr => hfree r (mem_cons_of_mem _ hr)
    · omega

theorem findSlot_none {regions : List VirRegion} (h : AddressSpaceOk block regions) (hpos : 0 < length)
    (hfind : findSlot regions minv maxv length = none) (hmin : minv ≤ v)
    (hmax : v + length ≤ maxv) (htop : v + length ≤ dataTop) : ¬ RangeFree regions v length := by
  unfold findSlot at hfind
  rcases hrange : freeVrange minv maxv length 0 (gapEnd regions) with _ | w
  · rw [hrange] at hfind
    have hlt := freeVrange_none hrange hpos hmin hmax (Nat.zero_le v)
    cases regions with
    | nil => exact absurd hlt (Nat.not_lt.mpr htop)
    | cons first rest =>
      replace hlt : first.vaddr < v + length := hlt
      intro hfree
      rcases hfree first (by simp) with hbelow | habove
      · exact findAfter_none h hpos hfind hmin hmax htop hbelow
          fun r hr => hfree r (mem_cons_of_mem _ hr)
      · omega
  · rw [hrange] at hfind
    simp at hfind

end FindSlot

/-! ## References -/

/-- How many physical regions of the list refer to the block. -/
def physRefs (b : Nat) (l : List PhysRegion) : Nat := l.countP fun pr => pr.ph == b

/-- How many physical regions of these regions refer to the block. -/
def regionRefs (b : Nat) (regions : List VirRegion) : Nat := (regions.map fun r => physRefs b r.phys).sum

/-- How many physical regions refer to the block. -/
def holders (s : VmState) (b : Nat) : Nat := ∑ p, regionRefs b (s.proc p).regions

/-- Blocks with references are there, and `count` is their reference count. -/
def CountOk (s : VmState) (count : Nat → Nat) : Prop :=
  ∀ b, 0 < count b → (Kind.physBlock, b) ∈ s.live ∧ (s.block b).refcount = count b ∧ count b < 256

@[simp] theorem physRefs_nil (b : Nat) : physRefs b [] = 0 := rfl

theorem physRefs_cons (b : Nat) (pr : PhysRegion) (l : List PhysRegion) :
    physRefs b (pr :: l) = physRefs b l + if pr.ph = b then 1 else 0 := by
  by_cases h : pr.ph = b
  · simp [physRefs, h]
  · simp [physRefs, h]

theorem physRefs_pos : 0 < physRefs b l ↔ ∃ pr ∈ l, pr.ph = b := by
  simp [physRefs, countP_pos_iff]

@[simp] theorem regionRefs_cons (b : Nat) (r : VirRegion) (l : List VirRegion) :
    regionRefs b (r :: l) = physRefs b r.phys + regionRefs b l := by
  simp [regionRefs]

@[simp] theorem regionRefs_append (b : Nat) (l l' : List VirRegion) :
    regionRefs b (l ++ l') = regionRefs b l + regionRefs b l' := by
  simp [regionRefs]

@[simp] theorem regionRefs_linkAt (b k : Nat) (r : VirRegion) (l : List VirRegion) :
    regionRefs b (linkAt l k r) = regionRefs b l + physRefs b r.phys := by
  have hsplit : regionRefs b l = regionRefs b (l.take k) + regionRefs b (l.drop k) := by
    rw [← regionRefs_append, take_append_drop]
  rw [linkAt, regionRefs_append, regionRefs_cons, hsplit]
  omega

/-- The references when the regions of one process change. -/
theorem holders_setRegions (s : VmState) (p : ProcNr) (l : List VirRegion) (b : Nat) :
    holders (s.setRegions p l) b + regionRefs b (s.proc p).regions = holders s b + regionRefs b l := by
  have hrest : ∑ q ∈ univ.erase p, regionRefs b ((s.setRegions p l).proc q).regions
      = ∑ q ∈ univ.erase p, regionRefs b (s.proc q).regions := by
    refine sum_congr rfl ?_
    intro q hq
    have hne : q ≠ p := ne_of_mem_erase hq
    simp [setRegions, setProc, hne]
  have hself : regionRefs b ((s.setRegions p l).proc p).regions = regionRefs b l := by
    simp [setRegions, setProc]
  have hnew := add_sum_erase univ
    (fun q => regionRefs b ((s.setRegions p l).proc q).regions) (mem_univ p)
  have hold := add_sum_erase univ
    (fun q => regionRefs b (s.proc q).regions) (mem_univ p)
  unfold holders
  omega

/-! ## What the functions leave as it is -/

/-- The processes are the same but for the page tables. -/
def SameProcs (s s' : VmState) : Prop :=
  ∀ p, { s'.proc p with pt := fun _ => none } = { s.proc p with pt := fun _ => none }

namespace SameProcs

variable {s s' s'' : VmState}

theorem refl {s : VmState} : SameProcs s s := fun _ => rfl

variable (h : SameProcs s s')
include h

theorem trans (h' : SameProcs s' s'') : SameProcs s s'' :=
  fun p => (h' p).trans (h p)

theorem regions (p : ProcNr) : (s'.proc p).regions = (s.proc p).regions :=
  (congrArg VmProc.regions (h p) :)

theorem segments {p : ProcNr} :
    (s'.proc p).stacktop = (s.proc p).stacktop ∧ (s'.proc p).dataPhys = (s.proc p).dataPhys :=
  ⟨(congrArg VmProc.stacktop (h p) :), (congrArg VmProc.dataPhys (h p) :)⟩

theorem holders (b : Nat) : VmState.holders s' b = VmState.holders s b := by
  refine sum_congr rfl ?_
  intro p _
  rw [h.regions p]

end SameProcs

/-- Nothing changes but what is new: the processes, and the objects that are in use. -/
structure Keeps (s s' : VmState) : Prop where
  procs : SameProcs s s'
  block : ∀ b, (Kind.physBlock, b) ∈ s.live → (Kind.physBlock, b) ∈ s'.live ∧ s'.block b = s.block b
  region : ∀ i, (Kind.virRegion, i) ∈ s.live → (Kind.virRegion, i) ∈ s'.live

namespace Keeps

variable {s s' s'' : VmState}

theorem refl {s : VmState} : Keeps s s := ⟨.refl, fun _ h => ⟨h, rfl⟩, fun _ h => h⟩

theorem trans (h : Keeps s s') (h' : Keeps s' s'') : Keeps s s'' where
  procs := h.procs.trans h'.procs
  block b hb := by
    obtain ⟨hlive, heq⟩ := h.block b hb
    obtain ⟨hlive', heq'⟩ := h'.block b hlive
    exact ⟨hlive', heq'.trans heq⟩
  region i hi := h'.region i (h.region i hi)

theorem of_eq (hproc : s'.proc = s.proc) (hblock : s'.block = s.block) (hlive : s.live ⊆ s'.live) :
    Keeps s s' where
  procs p := by rw [hproc]
  block b hb := ⟨hlive hb, by rw [hblock]⟩
  region i hi := hlive hi

/-- An object that is new may go again. -/
theorem slabFree (h : Keeps s s') {kind : Kind} {id : Nat} (hnew : (kind, id) ∉ s.live) :
    Keeps s (s'.slabFree kind id) where
  procs := h.procs
  block b hb := by
    obtain ⟨hlive, heq⟩ := h.block b hb
    refine ⟨mem_erase.mpr ⟨?_, hlive⟩, heq⟩
    intro he
    exact hnew (he ▸ hb)
  region i hi := by
    refine mem_erase.mpr ⟨?_, h.region i hi⟩
    intro he
    exact hnew (he ▸ hi)

/-- A block that is new may be written. -/
theorem setBlock (h : Keeps s s') (pb : PhysBlock) (hnew : (Kind.physBlock, b) ∉ s.live) :
    Keeps s (s'.setBlock b pb) where
  procs := h.procs
  block c hc := by
    obtain ⟨hlive, heq⟩ := h.block c hc
    refine ⟨hlive, ?_⟩
    have hne : c ≠ b := by
      rintro rfl
      exact hnew hc
    exact (update_of_ne hne _ _).trans heq
  region := h.region

theorem countOk (h : Keeps s s') (hs : CountOk s count) : CountOk s' count := by
  intro b hb
  obtain ⟨hlive, hcount, hlt⟩ := hs b hb
  obtain ⟨hlive', heq⟩ := h.block b hlive
  exact ⟨hlive', by rw [heq]; exact hcount, hlt⟩

end Keeps

/-- A new object is taken. -/
structure Takes (s s' : VmState) (kind : Kind) (id : Nat) : Prop where
  fresh : (kind, id) ∉ s.live
  live : (kind, id) ∈ s'.live
  mono : s.live ⊆ s'.live
  keeps : Keeps s s'
  block : s'.block = s.block

section

variable (s : VmState)

theorem keeps_tick_fail : Keeps s s.tick.fail :=
  .of_eq rfl rfl (Finset.Subset.refl _)

theorem slabAlloc_cases (env : Env) (kind : Kind) : (∃ s1, s.slabAlloc env kind = (none, s1) ∧ Keeps s s1) ∨
      ∃ id s1, s.slabAlloc env kind = (some id, s1) ∧ Takes s s1 kind id := by
  unfold slabAlloc
  split_ifs with h
  · exact .inl ⟨_, rfl, keeps_tick_fail s⟩
  · push Not at h
    exact .inr ⟨_, _, rfl, h.2, mem_insert_self _ _, subset_insert _ _, .of_eq rfl rfl (subset_insert _ _), rfl⟩

theorem allocMem_cases (env : Env) (clicks : Nat) (align clear : Bool) :
    s.allocMem env clicks align clear = (none, s.tick.fail) ∨
      ∃ base mem last, s.allocMem env clicks align clear = (some mem, s.takeMem base mem last clear) := by
  simp only [allocMem]
  generalize (if align then clicks + 16 else clicks) = want
  by_cases hfails : env.fails s.clock = true ∨ env.base s.clock = 0 ∨
      ¬ Finset.Ico (env.base s.clock) (env.base s.clock + want) ⊆ s.free
  · exact .inl (if_pos hfails)
  · exact .inr ⟨_, _, _, if_neg hfails⟩

theorem keeps_blockMem (env : Env) (r : VirRegion) (clicks : Nat) (what : Option Nat) :
    Keeps s (s.blockMem env r clicks what).2 := by
  cases what with
  | some mem => exact .refl
  | none =>
    unfold blockMem
    rcases allocMem_cases s env clicks (r.has vrPhys64k) true with h | ⟨base, mem, last, h⟩
    · rw [h]
      exact keeps_tick_fail s
    · rw [h]
      exact .of_eq rfl rfl (Finset.Subset.refl _)

theorem keeps_ptWritemap (env : Env) (p : ProcNr) (v bytes : Nat)
    (entry : Option (Nat × Bool)) : Keeps s (s.ptWritemap env p v bytes entry).2 := by
  unfold ptWritemap
  split
  · exact keeps_tick_fail s
  refine ⟨?_, fun b hb => ⟨hb, rfl⟩, fun i hi => hi⟩
  intro q
  by_cases hq : q = p
  · subst hq
    simp [setProc]
  · simp [setProc, tick, hq]

theorem mapPhWritept_cases (env : Env) (p : ProcNr) (r : VirRegion) (pr : PhysRegion) :
    ∃ done s1, s.mapPhWritept env p r pr = (done, s1) ∧ Keeps s s1 ∧ s1.block = s.block := by
  have hblock : (s.mapPhWritept env p r pr).2.block = s.block := by
    unfold mapPhWritept ptWritemap
    split <;> rfl
  exact ⟨_, _, rfl, keeps_ptWritemap s env p _ _ _, hblock⟩

end

/-! ## New blocks and regions -/

/-- A physical region with a block that was not in use before. -/
structure NewPhys (s s' : VmState) (pr : PhysRegion) (offset length : Nat) : Prop where
  keeps : Keeps s s'
  fresh : (Kind.physBlock, pr.ph) ∉ s.live
  live : (Kind.physBlock, pr.ph) ∈ s'.live
  offset : pr.offset = offset
  length : (s'.block pr.ph).length = length
  refcount : (s'.block pr.ph).refcount = 1

theorem mapNewPhysblock_spec (s : VmState) (env : Env) (p : ProcNr) (r : VirRegion)
    (offset length : Nat) (what : Option Nat) :
    ((s.mapNewPhysblock env p r offset length what).1 = none ∧
        Keeps s (s.mapNewPhysblock env p r offset length what).2) ∨
      ∃ pr, (s.mapNewPhysblock env p r offset length what).1
          = some ({ r with phys := physrInsert r.phys pr }, pr) ∧
        NewPhys s (s.mapNewPhysblock env p r offset length what).2 pr offset length := by
  unfold mapNewPhysblock
  rcases slabAlloc_cases s env .physRegion with ⟨s1, h1, hkeeps1⟩ | ⟨newphysr, s1, h1, ⟨hfreshPr, -, hmono, hkeeps1, -⟩⟩
  · rw [h1]
    exact .inl ⟨rfl, hkeeps1⟩
  rw [h1]
  dsimp only
  rcases slabAlloc_cases s1 env .physBlock with ⟨s2, h2, hkeeps2⟩ | ⟨newpb, s2, h2, ⟨hfresh, hlive2, -, hkeeps2, -⟩⟩
  · rw [h2]
    exact .inl ⟨rfl, (hkeeps1.trans hkeeps2).slabFree hfreshPr⟩
  rw [h2]
  dsimp only
  have hfreshPb : (Kind.physBlock, newpb) ∉ s.live := fun hlive => hfresh (hmono hlive)
  replace hkeeps2 := hkeeps1.trans hkeeps2
  have hkeeps3 := keeps_blockMem s2 env r (length / pageSize) what
  generalize s2.blockMem env r (length / pageSize) what = got at hkeeps3 ⊢
  obtain ⟨mem, s3⟩ := got
  have hkeeps13 := hkeeps2.trans hkeeps3
  have hlive3 := (hkeeps3.block newpb hlive2).1
  cases mem with
  | none => exact .inl ⟨rfl, (hkeeps13.slabFree hfreshPb).slabFree hfreshPr⟩
  | some mem =>
    dsimp only
    generalize hpb : (⟨length, mem, 1, env.garbage s3.clock, [newphysr]⟩ : PhysBlock) = pb
    have hkeeps4 := hkeeps13.setBlock pb hfreshPb
    have hblock4 : (s3.setBlock newpb pb).block newpb = pb := update_self _ _ _
    have hlive4 : (Kind.physBlock, newpb) ∈ (s3.setBlock newpb pb).live := hlive3
    generalize s3.setBlock newpb pb = s4 at hkeeps4 hblock4 hlive4 ⊢
    obtain ⟨done, s5, hw, hpt, hblock5⟩ := mapPhWritept_cases s4 env p r ⟨newphysr, newpb, offset⟩
    rw [hw]
    cases done with
    | false =>
      refine .inl ⟨rfl, ?_⟩
      refine Keeps.slabFree (Keeps.slabFree ?_ hfreshPb) hfreshPr
      split
      · exact (hkeeps4.trans hpt).trans (.of_eq rfl rfl (Finset.Subset.refl _))
      · exact hkeeps4.trans hpt
    | true =>
      refine .inr ⟨⟨newphysr, newpb, offset⟩, rfl, hkeeps4.trans hpt, hfreshPb, (hpt.block newpb hlive4).1, rfl, ?_, ?_⟩
      · rw [hblock5, hblock4, ← hpb]
      · rw [hblock5, hblock4, ← hpb]

/-- The physical regions of a new region: none, or one for the whole of it. -/
def NewContents (s s' : VmState) (r : VirRegion) (length : Nat) : Prop :=
  r.phys = [] ∨ ∃ pr, r.phys = [pr] ∧ NewPhys s s' pr 0 length

/-- The memory of a new region. -/
theorem mapHandleMemory_new (s : VmState) (env : Env) (p : ProcNr) (hphys : r.phys = [])
    (length : Nat) : Keeps s (s.mapHandleMemory env p r 0 length true).2.2 ∧
      ((s.mapHandleMemory env p r 0 length true).1 = ok →
        ∃ pr, (s.mapHandleMemory env p r 0 length true).2.1 = { r with phys := [pr] } ∧
          NewPhys s (s.mapHandleMemory env p r 0 length true).2.2 pr 0 length) := by
  have hstart : startPhys r.phys 0 = [] := by simp [startPhys, hphys]
  unfold mapHandleMemory
  rw [hstart]
  simp only [head?_nil, freeRangeHere, Nat.zero_add, Nat.sub_zero]
  by_cases hpos : 0 < length
  · rw [if_pos hpos]
    rcases mapNewPhysblock_spec s env p r 0 length none with ⟨hnone, hkeeps⟩ | ⟨pr, hsome, hnew⟩
    · generalize s.mapNewPhysblock env p r 0 length none = m at hnone hkeeps ⊢
      obtain ⟨res, s1⟩ := m
      obtain rfl : res = none := hnone
      exact ⟨hkeeps, fun h => absurd h (by simp [enomem, ok])⟩
    · generalize s.mapNewPhysblock env p r 0 length none = m at hsome hnew ⊢
      obtain ⟨res, s1⟩ := m
      obtain rfl : res = some ({ r with phys := physrInsert r.phys pr }, pr) := hsome
      refine ⟨hnew.keeps, fun _ => ⟨pr, ?_, hnew⟩⟩
      simp [handleLoop, hphys, physrInsert]
  · rw [if_neg hpos]
    exact ⟨.refl, fun h => absurd h (by simp [handleLoop, efault, ok])⟩

/-- A new region that is not linked yet. -/
structure NewRegion (s s' : VmState) (r : VirRegion) (v length : Nat) : Prop where
  keeps : Keeps s s'
  fresh : (Kind.virRegion, r.id) ∉ s.live
  live : (Kind.virRegion, r.id) ∈ s'.live
  vaddr_eq : r.vaddr = v
  length_eq : r.length = length
  contents : NewContents s s' r length

/-- `map_page_region` for memory that is allocated: it leaves everything as it was, or links
a new region. -/
theorem mapPageRegion_spec {s : VmState} {env : Env} {p : ProcNr} {minv maxv length : Nat}
    {flags : BitVec 16} {prealloc : Bool} :
    Keeps s (s.mapPageRegion env p minv maxv length none flags prealloc).2 ∨
      ∃ v k r s1, regionFindSlot (s.proc p).regions minv maxv length = some (v, k) ∧
        NewRegion s s1 r v length ∧
        (s.mapPageRegion env p minv maxv length none flags prealloc).2
          = s1.setRegions p (linkAt (s1.proc p).regions k r) := by
  unfold mapPageRegion
  rcases hslot : regionFindSlot (s.proc p).regions minv maxv length with _ | ⟨v, k⟩
  · exact .inl .refl
  rcases slabAlloc_cases s env .virRegion with ⟨s1, h1, hkeeps1⟩ | ⟨id, s1, h1, ⟨hfresh, hlive1, hmono, hkeeps1, -⟩⟩
  · rw [h1]
    exact .inl hkeeps1
  rw [h1]
  dsimp only
  rcases slabAlloc_cases s1 env .physAvl with ⟨s2, h2, hkeeps2⟩ | ⟨avl, s2, h2, ⟨hnew, -, -, hkeeps2, -⟩⟩
  · rw [h2]
    exact .inl ((hkeeps1.trans hkeeps2).slabFree hfresh)
  rw [h2]
  dsimp only
  have hfreshAvl : (Kind.physAvl, avl) ∉ s.live := fun hlive => hnew (hmono hlive)
  have hlive2 := hkeeps2.region id hlive1
  replace hkeeps2 := hkeeps1.trans hkeeps2
  by_cases hfill : (VirRegion.has ⟨id, avl, v, length, [], flags, .none⟩ vrAnon && prealloc) = true
  · rw [if_pos hfill]
    obtain ⟨hkeeps, hok⟩ := mapHandleMemory_new s2 env p
      (r := ⟨id, avl, v, length, [], flags, .none⟩) rfl length
    generalize s2.mapHandleMemory env p ⟨id, avl, v, length, [], flags, .none⟩ 0 length true = m at hkeeps hok ⊢
    obtain ⟨res, r2, s4⟩ := m
    by_cases hres : res = ok
    · rw [if_neg (by simp [hres])]
      obtain ⟨pr, rfl, hnew⟩ := hok hres
      refine .inr ⟨v, k, _, s4, rfl, ⟨hkeeps2.trans hkeeps, hfresh, hkeeps.region id hlive2, rfl, rfl, ?_⟩, rfl⟩
      exact .inr ⟨pr, rfl, { hnew with
        keeps := hkeeps2.trans hnew.keeps, fresh := fun hmem => hnew.fresh (hkeeps2.block pr.ph hmem).1 }⟩
    · rw [if_pos hres]
      exact .inl (((hkeeps2.trans hkeeps).slabFree hfreshAvl).slabFree hfresh)
  · rw [if_neg hfill]
    exact .inr ⟨v, k, _, s2, rfl, ⟨hkeeps2, hfresh, hlive2, rfl, rfl, .inl rfl⟩, rfl⟩

/-! ## References that go -/

/-- The counts when one reference to `b` is gone. -/
def dropRef (count : Nat → Nat) (b : Nat) : Nat → Nat := update count b (count b - 1)

theorem dropRef_eq (count : Nat → Nat) (b c : Nat) : dropRef count b c = count c - if b = c then 1 else 0 := by
  by_cases hc : c = b
  · subst hc
    rw [if_pos rfl]
    exact update_self ..
  · rw [if_neg (Ne.symm hc)]
    exact update_of_ne hc ..

/-- The object of `pb_unreferenced`: the block with one reference less, and without references it goes. -/
theorem pbUnreferenced_eq (s : VmState) (r : VirRegion) (pr : PhysRegion) :
    ∃ s1 : VmState, s1.proc = s.proc ∧ s1.live = s.live ∧
      s1.block = update s.block pr.ph { s.block pr.ph with
        refcount := ((s.block pr.ph).refcount + 255) % 256, refs := (s.block pr.ph).refs.erase pr.id } ∧
      (s.pbUnreferenced r pr = s1 ∨
        ((s.block pr.ph).refcount + 255) % 256 = 0 ∧ s.pbUnreferenced r pr = s1.slabFree .physBlock pr.ph) := by
  unfold pbUnreferenced
  dsimp only
  split
  · rename_i hzero
    refine ⟨_, ?_, ?_, ?_, .inr ⟨hzero, rfl⟩⟩
    all_goals
      split
      · rfl
      · split <;> rfl
  · exact ⟨s.setBlock pr.ph _, rfl, rfl, rfl, .inl rfl⟩

/-- A block is written, and what `g` reads of it stays. -/
theorem update_block {α : Type} {g : PhysBlock → α} {pb : PhysBlock} (h : g pb = g (block b)) (c : Nat) :
    g (update block b pb c) = g (block c) := by
  by_cases hc : c = b
  · rw [hc, update_self, h]
  · rw [update_of_ne hc]

/-- What keeps the processes, the regions and the lengths of blocks. -/
structure KeepsLengths (s s' : VmState) : Prop where
  procs : SameProcs s s'
  region : ∀ i, (Kind.virRegion, i) ∈ s.live → (Kind.virRegion, i) ∈ s'.live
  length : ∀ b, (s'.block b).length = (s.block b).length

theorem KeepsLengths.slabFree {s' : VmState} (h : KeepsLengths s s') (id : Nat) :
    KeepsLengths s (s'.slabFree .physRegion id) where
  procs := h.procs
  region i hi := mem_erase.mpr ⟨by simp, h.region i hi⟩
  length := h.length

theorem keepsLengths_pbUnreferenced (s : VmState) (r : VirRegion) (pr : PhysRegion) :
    KeepsLengths s (s.pbUnreferenced r pr) := by
  obtain ⟨s1, hproc, hlive, hblock, heq⟩ := s.pbUnreferenced_eq r pr
  have hlength : ∀ b, (s1.block b).length = (s.block b).length := by
    rw [hblock]
    exact update_block rfl
  rcases heq with heq | ⟨-, heq⟩
  · rw [heq]
    exact ⟨fun p => by rw [hproc], fun i hi => hlive ▸ hi, hlength⟩
  · rw [heq]
    exact ⟨fun p => by rw [← hproc]; rfl, fun i hi => mem_erase.mpr ⟨by simp, hlive ▸ hi⟩, hlength⟩

section

variable (hs : CountOk s count)
include hs

theorem countOk_pbUnreferenced (r : VirRegion) (hpos : 0 < count pr.ph) :
    CountOk (s.pbUnreferenced r pr) (dropRef count pr.ph) := by
  obtain ⟨s1, -, hlive, hblock, heq⟩ := s.pbUnreferenced_eq r pr
  obtain ⟨-, hcount, hlt⟩ := hs pr.ph hpos
  intro b hb
  rw [dropRef_eq] at hb ⊢
  obtain ⟨hblive, hbcount, hblt⟩ := hs b (by omega)
  have hnew : (s1.block b).refcount = count b - if pr.ph = b then 1 else 0 := by
    rw [hblock]
    by_cases hbp : b = pr.ph
    · subst hbp
      rw [update_self, if_pos rfl]
      dsimp only
      omega
    · rw [update_of_ne hbp, if_neg (Ne.symm hbp), hbcount]
      rfl
  rcases heq with heq | ⟨hzero, heq⟩
  · rw [heq, hlive]
    exact ⟨hblive, hnew, by omega⟩
  · rw [heq]
    refine ⟨mem_erase.mpr ⟨?_, hlive ▸ hblive⟩, hnew, by omega⟩
    rintro ⟨⟩
    rw [if_pos rfl] at hb
    omega

theorem CountOk.slabFree (id : Nat) : CountOk (s.slabFree .physRegion id) count := by
  intro b hb
  obtain ⟨hlive, hcount, hlt⟩ := hs b hb
  exact ⟨mem_erase.mpr ⟨by simp, hlive⟩, hcount, hlt⟩

/-- A block that is new has no references. -/
theorem CountOk.fresh (hb : (Kind.physBlock, b) ∉ s.live) : count b = 0 := by
  by_contra hne
  exact hb (hs b (Nat.pos_of_ne_zero hne)).1

theorem CountOk.congr {s' : VmState}
    (hlive : s'.live = s.live) (hblock : ∀ b, (s'.block b).refcount = (s.block b).refcount) :
    CountOk s' count := by
  intro b hb
  rw [hlive, hblock]
  exact hs b hb

end

/-- The copy of a shared block. -/
structure CopiesBlock (s s' : VmState) (count : Nat → Nat) (ph : PhysRegion) (newpb : Nat) : Prop where
  fresh : (Kind.physBlock, newpb) ∉ s.live
  procs : SameProcs s s'
  region : ∀ i, (Kind.virRegion, i) ∈ s.live → (Kind.virRegion, i) ∈ s'.live
  count : CountOk s' (update (dropRef count ph.ph) newpb 1)
  other : ∀ b, b ≠ newpb → (s'.block b).length = (s.block b).length
  length_eq : (s'.block newpb).length = (s.block ph.ph).length

theorem mapCopyPhBlock_spec (hs : CountOk s count) {env : Env}
    {p : ProcNr} {r : VirRegion} {ph : PhysRegion} (hpos : 0 < count ph.ph)
    (hok : (s.mapCopyPhBlock env p r ph).1 = ok) :
    ∃ newpb, (s.mapCopyPhBlock env p r ph).2.1 = { ph with ph := newpb } ∧
      CopiesBlock s (s.mapCopyPhBlock env p r ph).2.2 count ph newpb := by
  unfold mapCopyPhBlock at hok ⊢
  rcases slabAlloc_cases s env .physBlock with ⟨s1, h1, -⟩ | ⟨newpb, s1, h1, ⟨hfresh, hlive1, -, hkeeps1, hblock1⟩⟩
  · rw [h1] at hok
    exact absurd hok (by simp [enomem, ok])
  rw [h1] at hok ⊢
  dsimp only at hok ⊢
  rcases allocMem_cases s1 env ((s1.block ph.ph).length / pageSize) (r.has vrPhys64k) false with
    h2 | ⟨base, page, last, h2⟩
  · rw [h2] at hok
    exact absurd hok (by simp [enomem, ok])
  rw [h2] at hok ⊢
  dsimp only at hok ⊢
  have hkeeps2 : Keeps s1 (s1.takeMem base page last false) := .of_eq rfl rfl (Finset.Subset.refl _)
  have hlive2 := (hkeeps2.block newpb hlive1).1
  have hblock2 : (s1.takeMem base page last false).block = s.block := hblock1
  generalize s1.takeMem base page last false = s2 at hkeeps2 hlive2 hblock2 hok ⊢
  have hkeeps := hkeeps1.trans hkeeps2
  have hcount3 := countOk_pbUnreferenced (hkeeps.countOk hs) r hpos
  have hkeeps3 := keepsLengths_pbUnreferenced s2 r ph
  have hne : newpb ≠ ph.ph := by
    rintro rfl
    exact hfresh (hs ph.ph hpos).1
  have hlive3 : (Kind.physBlock, newpb) ∈ (s2.pbUnreferenced r ph).live := by
    obtain ⟨t, -, hlive, -, heq | ⟨-, heq⟩⟩ := s2.pbUnreferenced_eq r ph
    · rw [heq, hlive]
      exact hlive2
    · rw [heq]
      exact mem_erase.mpr ⟨by simp [hne], hlive ▸ hlive2⟩
  generalize s2.pbUnreferenced r ph = s3 at hkeeps3 hcount3 hlive3 hok ⊢
  generalize hpb : (⟨(s1.block ph.ph).length, page * pageSize, 1, env.garbage s3.clock, [ph.id]⟩ : PhysBlock)
    = pb at hok ⊢
  have hlen4 : pb.length = (s.block ph.ph).length := by rw [← hpb, hblock1]
  have hrc4 : pb.refcount = 1 := by rw [← hpb]
  split_ifs at hok with hcopy
  · exact absurd hok (by simp [efault, ok])
  rw [if_neg hcopy]
  generalize hs5 : (s3.setBlock newpb pb).absCopy ((s2.block ph.ph).phys / pageSize) page
    ((s1.block ph.ph).length / pageSize) = s5 at hok ⊢
  have hproc5 : s5.proc = s3.proc := by subst hs5; rfl
  have hlive5 : s5.live = s3.live := by subst hs5; rfl
  have hblock5 : s5.block = update s3.block newpb pb := by subst hs5; rfl
  obtain ⟨done, s6, hw, hpt, hptBlock⟩ := mapPhWritept_cases s5 env p r { ph with ph := newpb }
  rw [hw] at hok ⊢
  cases done with
  | false => exact absurd hok (by simp [enomem, ok])
  | true =>
    have hcount5 : CountOk s5 (update (dropRef count ph.ph) newpb 1) := by
      intro b hb
      rw [hlive5, hblock5]
      by_cases hbn : b = newpb
      · subst hbn
        rw [update_self, update_self]
        exact ⟨hlive3, hrc4, by omega⟩
      · rw [update_of_ne hbn] at hb ⊢
        rw [update_of_ne hbn]
        exact hcount3 b hb
    refine ⟨newpb, rfl, hfresh, ?_, ?_, hpt.countOk hcount5, ?_, ?_⟩
    · refine ((hkeeps.procs.trans hkeeps3.procs).trans ?_).trans hpt.procs
      intro q
      rw [hproc5]
    · intro i hi
      refine hpt.region i ?_
      rw [hlive5]
      exact hkeeps3.region i (hkeeps.region i hi)
    · intro b hb
      rw [hptBlock, hblock5, update_of_ne hb, hkeeps3.length, hblock2]
    · rw [hptBlock, hblock5, update_self, hlen4]

/-! ## The start of a region goes -/

theorem subfree_of_le {env : Env} {p : ProcNr} {r : VirRegion}
    (h : ∀ pr ∈ l, len ≤ pr.offset) {s : VmState} : subfree env p r len l s = (ok, l, s) := by
  cases l with
  | nil => rfl
  | cons pr rest => rw [subfree, if_pos (h pr (by simp))]

/-- What `map_subfree` leaves: physical regions from `len` on, with their references; the
blocks to which others refer have their lengths. -/
structure Subfrees (s s' : VmState) (count : Nat → Nat) (len last : Nat) (l l' : List PhysRegion) :
    Prop where
  procs : SameProcs s s'
  region : ∀ i, (Kind.virRegion, i) ∈ s.live → (Kind.virRegion, i) ∈ s'.live
  counted : CountOk s' fun b => count b - physRefs b l + physRefs b l'
  phys : PhysOk s'.block len last l'
  other : ∀ b, physRefs b l < count b → (s'.block b).length = (s.block b).length

theorem Subfrees.refl (hs : CountOk s count)
    (hle : ∀ b, physRefs b l ≤ count b) (hphys : PhysOk s.block len last l) :
    Subfrees s s count len last l l where
  procs := .refl
  region _ hi := hi
  counted := by
    have heq : (fun b => count b - physRefs b l + physRefs b l) = count :=
      funext fun b => Nat.sub_add_cancel (hle b)
    rw [heq]
    exact hs
  phys := hphys
  other _ _ := rfl

/-- The first physical region refers to `b` now, to which nothing else refers. -/
structure OwnsBlock (s s' : VmState) (count : Nat → Nat) (pr : PhysRegion) (rest : List PhysRegion)
    (b : Nat) : Prop where
  procs : SameProcs s s'
  region : ∀ i, (Kind.virRegion, i) ∈ s.live → (Kind.virRegion, i) ∈ s'.live
  counted : CountOk s' fun c =>
    count c - physRefs c (pr :: rest) + physRefs c ({ pr with ph := b } :: rest)
  length_eq : (s'.block b).length = (s.block pr.ph).length
  length_of_ne : ∀ c, c ≠ b → (s'.block c).length = (s.block c).length
  rest_ne : ∀ x ∈ rest, x.ph ≠ b
  other_ne : ∀ c, physRefs c (pr :: rest) < count c → c ≠ b

/-- Before a block is cut it is copied if others refer to it. -/
theorem ownsBlock_of_copied (hs : CountOk s count) (hle : ∀ b, physRefs b (pr :: rest) ≤ count b)
    (hphys : PhysOk s.block first last (pr :: rest)) {env : Env} {p : ProcNr} {r : VirRegion}
    {copied : Int × PhysRegion × VmState}
    (hcopied : copied = if 1 < (s.block pr.ph).refcount then s.mapCopyPhBlock env p r pr else (ok, pr, s))
    (hok : copied.1 = ok) :
    ∃ b, copied.2.1 = { pr with ph := b } ∧ OwnsBlock s copied.2.2 count pr rest b := by
  have hone : physRefs pr.ph rest + 1 ≤ count pr.ph := by
    have := hle pr.ph
    rwa [physRefs_cons, if_pos rfl] at this
  obtain ⟨hlive, hcount, hlt⟩ := hs pr.ph (by omega)
  obtain ⟨hfirst, _⟩ := pairwise_cons.mp hphys.sorted
  by_cases hshared : 1 < (s.block pr.ph).refcount
  · rw [if_pos hshared] at hcopied
    subst hcopied
    obtain ⟨newpb, heq, hcopy⟩ := mapCopyPhBlock_spec hs (by omega) hok
    have hnew : count newpb = 0 := hs.fresh hcopy.fresh
    have hnewRest : physRefs newpb rest = 0 := by
      have := hle newpb
      rw [physRefs_cons] at this
      omega
    refine ⟨newpb, heq, hcopy.procs, hcopy.region, ?_, hcopy.length_eq, hcopy.other, ?_, ?_⟩
    · have hfun : (fun c => count c - physRefs c (pr :: rest) + physRefs c ({ pr with ph := newpb } :: rest))
          = update (dropRef count pr.ph) newpb 1 := by
        funext c
        have hc := hle c
        simp only [physRefs_cons] at hc ⊢
        by_cases hcn : c = newpb
        · subst hcn
          rw [update_self, if_pos rfl]
          omega
        · rw [update_of_ne hcn, if_neg (Ne.symm hcn), dropRef_eq]
          omega
      rw [hfun]
      exact hcopy.count
    · intro x hx hxn
      have : 0 < physRefs newpb rest := physRefs_pos.mpr ⟨x, hx, hxn⟩
      omega
    · rintro c hc rfl
      omega
  · rw [if_neg hshared] at hcopied
    subst hcopied
    refine ⟨pr.ph, rfl, .refl, fun i hi => hi, ?_, rfl, fun c _ => rfl, ?_, ?_⟩
    · have hfun : (fun c => count c - physRefs c (pr :: rest) + physRefs c ({ pr with ph := pr.ph } :: rest))
          = count := funext fun c => Nat.sub_add_cancel (hle c)
      rw [hfun]
      exact hs
    · intro x hx
      exact ((hfirst x hx).2).symm
    · rintro c hc rfl
      rw [physRefs_cons, if_pos rfl] at hc
      omega

/-- The block that the cut goes through loses its first part. -/
theorem OwnsBlock.cut {s1 s2 : VmState} (h : OwnsBlock s s1 count pr rest b)
    (hphys : PhysOk s.block first last (pr :: rest)) (hbelow : pr.offset < len)
    (hcut : len < pr.offset + (s.block pr.ph).length)
    (hproc : s2.proc = s1.proc) (hlive : s2.live = s1.live)
    (hblock : s2.block = update s1.block b { s1.block b with
      phys := (s1.block b).phys + (len - pr.offset), length := (s1.block b).length - (len - pr.offset) }) :
    Subfrees s s2 count len last (pr :: rest) (⟨pr.id, b, pr.offset + (len - pr.offset)⟩ :: rest) := by
  obtain ⟨hfirst, hrest⟩ := pairwise_cons.mp hphys.sorted
  have hinside := hphys.inside pr (by simp)
  have hlenOther : ∀ c, c ≠ b → (s2.block c).length = (s.block c).length := by
    intro c hc
    rw [hblock, update_of_ne hc, h.length_of_ne c hc]
  have hlenRest := fun x hx => hlenOther x.ph (h.rest_ne x hx)
  have hlenSelf : (s2.block b).length = (s.block pr.ph).length - (len - pr.offset) := by
    rw [hblock, update_self, ← h.length_eq]
  refine ⟨h.procs.trans fun q => by rw [hproc], fun i hi => hlive ▸ h.region i hi, h.counted.congr hlive fun c => ?_,
    ⟨forall_mem_cons.mpr ⟨?_, fun x hx => ?_⟩, forall_mem_cons.mpr ⟨?_, fun x hx => ?_⟩, pairwise_cons.mpr ⟨fun x hx => ?_, ?_⟩⟩,
    fun c hc => hlenOther c (h.other_ne c hc)⟩
  · rw [hblock]
    exact update_block (by rfl) c
  · dsimp only
    rw [hlenSelf]
    omega
  · rw [hlenRest x hx]
    have h1 := (hfirst x hx).1
    have h2 := hphys.inside x (by simp [hx])
    omega
  · rw [hlenSelf]
    omega
  · rw [hlenRest x hx]
    exact hphys.pos x (by simp [hx])
  · dsimp only
    rw [hlenSelf]
    have h1 := (hfirst x hx).1
    exact ⟨by omega, (h.rest_ne x hx).symm⟩
  · refine hrest.imp_of_mem ?_
    intro x y hx _ hxy
    rw [hlenRest x hx]
    exact hxy

theorem subfree_spec (hs : CountOk s count)
    (hle : ∀ b, physRefs b l ≤ count b) (hphys : PhysOk s.block first last l)
    {env : Env} {p : ProcNr} {r : VirRegion} (hok : (subfree env p r len l s).1 = ok) :
    Subfrees s (subfree env p r len l s).2.2 count len last l (subfree env p r len l s).2.1 := by
  induction l generalizing s count with
  | nil =>
    refine .refl hs hle ⟨by simp, by simp, Pairwise.nil⟩
  | cons pr rest ih =>
    obtain ⟨hfirst, _⟩ := pairwise_cons.mp hphys.sorted
    unfold subfree at hok ⊢
    split at hok
    · -- The rest is above `len`.
      rename_i habove
      rw [if_pos habove]
      refine .refl hs hle ⟨?_, hphys.pos, hphys.sorted⟩
      intro x hx
      refine ⟨?_, (hphys.inside x hx).2⟩
      rcases mem_cons.mp hx with rfl | hx
      · exact habove
      · have := (hfirst x hx).1
        omega
    · rename_i hbelow
      rw [if_neg hbelow]
      split at hok
      · -- The physical region goes as a whole.
        rename_i hwhole
        rw [if_pos hwhole]
        have hpos : 0 < count pr.ph := by
          have := hle pr.ph
          rw [physRefs_cons, if_pos rfl] at this
          omega
        have hkeeps := (keepsLengths_pbUnreferenced s r pr).slabFree pr.id
        have hcount1 := (countOk_pbUnreferenced hs r hpos).slabFree pr.id
        have hle1 : ∀ b, physRefs b rest ≤ dropRef count pr.ph b := by
          intro b
          have := hle b
          rw [physRefs_cons] at this
          rw [dropRef_eq]
          omega
        have hphys1 : PhysOk ((s.pbUnreferenced r pr).slabFree .physRegion pr.id).block first last rest :=
          hphys.tail.congr fun x _ => hkeeps.length x.ph
        have hrest := ih hcount1 hle1 hphys1 hok
        generalize (s.pbUnreferenced r pr).slabFree .physRegion pr.id = s1 at hrest hkeeps ⊢
        refine ⟨hkeeps.procs.trans hrest.procs, fun i hi => hrest.region i (hkeeps.region i hi), ?_,
          hrest.phys, ?_⟩
        · have hfun : ∀ l', (fun b => count b - physRefs b (pr :: rest) + physRefs b l')
              = fun b => dropRef count pr.ph b - physRefs b rest + physRefs b l' := by
            intro l'
            funext b
            rw [physRefs_cons, dropRef_eq]
            omega
          rw [hfun]
          exact hrest.counted
        · intro b hb
          rw [hrest.other b ?_, hkeeps.length]
          rw [physRefs_cons] at hb
          rw [dropRef_eq]
          omega
      · -- The cut goes through the block; the rest is above it.
        rename_i hwhole
        rw [if_neg hwhole]
        dsimp only at hok ⊢
        generalize hcopied : (if 1 < (s.block pr.ph).refcount then s.mapCopyPhBlock env p r pr
          else (ok, pr, s)) = copied at hok ⊢
        by_cases hres : copied.1 = ok
        · rw [if_neg (not_not.mpr hres)]
          obtain ⟨b, heq, howns⟩ := ownsBlock_of_copied hs hle hphys hcopied.symm hres
          obtain ⟨res, pr1, s1⟩ := copied
          subst heq
          have hrest : ∀ x ∈ rest, len ≤ x.offset := by
            intro x hx
            have := (hfirst x hx).1
            omega
          rw [subfree_of_le hrest]
          refine howns.cut hphys (by omega) (by omega) ?_ ?_ ?_
          · split <;> rfl
          · split <;> rfl
          · split <;> rfl
        · rw [if_pos hres] at hok
          exact absurd hok hres

/-- Nothing is cut when all physical regions end below `len`. -/
theorem subfree_whole
    (h : ∀ pr ∈ l, pr.offset + (s.block pr.ph).length ≤ len) (env : Env) (p : ProcNr) (r : VirRegion) :
    (subfree env p r len l s).1 = ok := by
  induction l generalizing s with
  | nil => rfl
  | cons pr rest ih =>
    unfold subfree
    split
    · rfl
    rw [if_pos (h pr (by simp))]
    have hkeeps := (keepsLengths_pbUnreferenced s r pr).slabFree pr.id
    refine ih ?_
    intro x hx
    rw [hkeeps.length]
    exact h x (by simp [hx])

/-! ## Remapped regions -/

/-- The copies have the blocks and the offsets of the originals. -/
theorem copyPhys_spec {env : Env} (hok : (copyPhys env l s).1 = true) :
    Keeps s (copyPhys env l s).2.2 ∧
      (copyPhys env l s).2.1.map (fun x => (x.ph, x.offset)) = l.map fun x => (x.ph, x.offset) := by
  induction l generalizing s with
  | nil => exact ⟨.refl, rfl⟩
  | cons ph rest ih =>
    unfold copyPhys at hok ⊢
    rcases slabAlloc_cases s env .physRegion with ⟨s1, h1, -⟩ | ⟨id, s1, h1, htake⟩
    · rw [h1] at hok
      simp at hok
    · rw [h1] at hok ⊢
      obtain ⟨hkeeps, hmap⟩ := ih hok
      exact ⟨htake.keeps.trans hkeeps, by simp [hmap]⟩

/-- A region that is a copy and not linked. -/
structure CopiesRegion (s s' : VmState) (vr copy : VirRegion) : Prop where
  keeps : Keeps s s'
  fresh : (Kind.virRegion, copy.id) ∉ s.live
  live : (Kind.virRegion, copy.id) ∈ s'.live
  phys : copy.phys.map (fun x => (x.ph, x.offset)) = vr.phys.map fun x => (x.ph, x.offset)

theorem mapCopyRegion_spec {env : Env} {p : ProcNr} {copy : VirRegion}
    (hsome : (s.mapCopyRegion env p vr).1 = some copy) :
    CopiesRegion s (s.mapCopyRegion env p vr).2 vr copy := by
  unfold mapCopyRegion at hsome ⊢
  rcases slabAlloc_cases s env .virRegion with ⟨s1, h1, -⟩ | ⟨id, s1, h1, htake1⟩
  · rw [h1] at hsome
    simp at hsome
  rw [h1] at hsome ⊢
  dsimp only at hsome ⊢
  rcases slabAlloc_cases s1 env .physAvl with ⟨s2, h2, -⟩ | ⟨avl, s2, h2, htake2⟩
  · rw [h2] at hsome
    simp at hsome
  rw [h2] at hsome ⊢
  dsimp only at hsome ⊢
  by_cases hdone : (copyPhys env vr.phys s2).1 = true
  · obtain ⟨hkeeps3, hmap⟩ := copyPhys_spec hdone
    rw [if_pos hdone] at hsome ⊢
    obtain rfl := Option.some.inj hsome
    exact ⟨(htake1.keeps.trans htake2.keeps).trans hkeeps3, htake1.fresh,
      hkeeps3.region id (htake2.keeps.region id htake1.live), hmap⟩
  · rw [if_neg hdone] at hsome
    simp at hsome

theorem physRefs_of_map {l' : List PhysRegion}
    (h : l.map (fun x => (x.ph, x.offset)) = l'.map fun x => (x.ph, x.offset)) (b : Nat) :
    physRefs b l = physRefs b l' := by
  have hcount := congrArg (countP fun x : Nat × Nat => x.1 == b) h
  rwa [countP_map, countP_map] at hcount

/-- Physical regions with the same blocks and offsets are in order if the others are. -/
theorem physOk_of_map {last' : Nat} {l' : List PhysRegion}
    (h : PhysOk block first last l) (hin : ∀ pr ∈ l, pr.offset + (block pr.ph).length ≤ last')
    (hmap : l'.map (fun x => (x.ph, x.offset)) = l.map fun x => (x.ph, x.offset)) :
    PhysOk block first last' l' := by
  have hmem : ∀ x ∈ l', ∃ y ∈ l, y.ph = x.ph ∧ y.offset = x.offset := by
    intro x hx
    have hx' : (x.ph, x.offset) ∈ l.map fun x => (x.ph, x.offset) := by
      rw [← hmap]
      exact mem_map_of_mem hx
    obtain ⟨y, hy, heq⟩ := mem_map.mp hx'
    exact ⟨y, hy, congrArg Prod.fst heq, congrArg Prod.snd heq⟩
  refine ⟨?_, ?_, ?_⟩
  · intro x hx
    obtain ⟨y, hy, hph, hoff⟩ := hmem x hx
    rw [← hph, ← hoff]
    exact ⟨(h.inside y hy).1, hin y hy⟩
  · intro x hx
    obtain ⟨y, hy, hph, _⟩ := hmem x hx
    rw [← hph]
    exact h.pos y hy
  · have hsorted : (l.map fun x => (x.ph, x.offset)).Pairwise fun a b =>
        a.2 + (block a.1).length ≤ b.2 ∧ a.1 ≠ b.1 := pairwise_map.mpr h.sorted
    rw [← hmap] at hsorted
    exact pairwise_map.mp hsorted

/-- The references of a remapped region are counted. -/
theorem remapPhys_spec (hs : CountOk s count) {env : Env} {p : ProcNr}
    {vr : VirRegion} (hpos : ∀ pr ∈ l, 0 < count pr.ph)
    (hlt : ∀ b, count b + physRefs b l < 256 ∨ physRefs b l = 0)
    (hgo : (remapPhys env p vr l s).halt = none) : KeepsLengths s (remapPhys env p vr l s) ∧
      CountOk (remapPhys env p vr l s) fun b => count b + physRefs b l := by
  induction l generalizing s count with
  | nil => exact ⟨⟨.refl, fun _ hi => hi, fun _ => rfl⟩, hs⟩
  | cons ph rest ih =>
    have hone := hpos ph (by simp)
    obtain ⟨hlive, hcount, _⟩ := hs ph.ph hone
    have hroom : count ph.ph + physRefs ph.ph rest + 1 < 256 := by
      have := hlt ph.ph
      rw [physRefs_cons, if_pos rfl] at this
      omega
    unfold remapPhys at hgo ⊢
    dsimp only at hgo ⊢
    generalize hpb : ({ s.block ph.ph with refcount := ((s.block ph.ph).refcount + 1) % 256 } : PhysBlock)
      = pb at hgo ⊢
    have hlen : pb.length = (s.block ph.ph).length := by rw [← hpb]
    have hrc : pb.refcount = count ph.ph + 1 := by
      rw [← hpb]
      dsimp only
      omega
    -- One more reference to the block of the first.
    have hcount1 : CountOk (s.setBlock ph.ph pb) fun b => count b + if ph.ph = b then 1 else 0 := by
      intro b hb
      dsimp only at hb ⊢
      show _ ∈ s.live ∧ (update s.block ph.ph pb b).refcount = _ ∧ _
      by_cases hbp : b = ph.ph
      · subst hbp
        rw [update_self, if_pos rfl]
        exact ⟨hlive, hrc, by omega⟩
      · rw [if_neg (Ne.symm hbp)] at hb ⊢
        rw [update_of_ne hbp]
        exact hs b hb
    have hlen1 : ∀ b, ((s.setBlock ph.ph pb).block b).length = (s.block b).length := update_block hlen
    have hprocs1 : SameProcs s (s.setBlock ph.ph pb) := fun _ => rfl
    have hregion1 : ∀ i, (Kind.virRegion, i) ∈ s.live → (Kind.virRegion, i) ∈ (s.setBlock ph.ph pb).live :=
      fun _ hi => hi
    generalize s.setBlock ph.ph pb = s1 at hcount1 hlen1 hprocs1 hregion1 hgo ⊢
    obtain ⟨done, s2, hw, hpt, hptBlock⟩ := mapPhWritept_cases s1 env p vr ph
    rw [hw] at hgo ⊢
    cases done with
    | false => exact absurd hgo (by simp [panic])
    | true =>
      have hpos' : ∀ x ∈ rest, 0 < count x.ph + if ph.ph = x.ph then 1 else 0 := fun x hx =>
        Nat.add_pos_left (hpos x (by simp [hx])) _
      have hlt' : ∀ b, (count b + if ph.ph = b then 1 else 0) + physRefs b rest < 256 ∨ physRefs b rest = 0 := by
        intro b
        have := hlt b
        rw [physRefs_cons] at this
        omega
      obtain ⟨hkeeps, hcounted⟩ := ih (hpt.countOk hcount1) hpos' hlt' hgo
      refine ⟨⟨(hprocs1.trans hpt.procs).trans hkeeps.procs,
        fun i hi => hkeeps.region i (hpt.region i (hregion1 i hi)), ?_⟩, ?_⟩
      · intro b
        rw [hkeeps.length, hptBlock, hlen1]
      have hfun : (fun b => count b + physRefs b (ph :: rest))
          = fun b => (count b + if ph.ph = b then 1 else 0) + physRefs b rest := by
        funext b
        rw [physRefs_cons]
        omega
      rw [hfun]
      exact hcounted

end VmState

end Minix.Vm
