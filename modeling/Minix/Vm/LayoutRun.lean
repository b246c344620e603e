/-
  Vm/LayoutRun.lean --- address spaces over runs of requests.

  Each request keeps the layout if it is safe: an mmap or a remap of at least one page at a
  page aligned place, a remap that is not shorter than what is mapped, an munmap that does
  not have to stop in the middle, a brk whose heap is still there and stays below the top.
-/
import Minix.Vm.Layout

set_option autoImplicit false

namespace Minix.Vm

open Minix.Foundation Relation List

variable {block : Nat → PhysBlock} {r region : VirRegion} {len k minv maxv addr length delta : Nat}
  {l : List PhysRegion} {lo hi regions : List VirRegion} {p : ProcNr} {s s' : VmState}

/-! ## Lists of regions -/

theorem RegionOk.congr {block' : Nat → PhysBlock} (h : RegionOk block r)
    (hlen : ∀ pr ∈ r.phys, (block' pr.ph).length = (block pr.ph).length) : RegionOk block' r :=
  ⟨h.vaddr, h.length, h.pos, h.top, h.phys.congr hlen⟩

/-- A physical region list from `len` to `len` is empty. -/
theorem PhysOk.eq_nil (h : PhysOk block len len l) : l = [] := by
  cases l with
  | nil => rfl
  | cons pr rest =>
    have hin := h.inside pr (by simp)
    have hpos := h.pos pr (by simp)
    omega

theorem PhysOk.physRefs_le_one {first last : Nat}
    (h : PhysOk block first last l) (b : Nat) : VmState.physRefs b l ≤ 1 := by
  induction l with
  | nil => simp
  | cons pr rest ih =>
    rw [VmState.physRefs_cons]
    split_ifs with hb
    · have hzero : VmState.physRefs b rest = 0 := by
        by_contra hpos
        obtain ⟨x, hx, hxb⟩ := VmState.physRefs_pos.mp (Nat.pos_of_ne_zero hpos)
        exact ((pairwise_cons.mp h.sorted).1 x hx).2 (hb.trans hxb.symm)
      omega
    · exact ih h.tail

/-- What is left of a region from `len` on, moved to offset 0. -/
theorem PhysOk.shift {last : Nat}
    (h : PhysOk block len last l) (hlen : 0 < len) (hlast : last < 2 ^ 32) :
    PhysOk block 0 (last - len) (l.map fun pr => { pr with offset := u32 (pr.offset + (2 ^ 32 - len)) }) := by
  have hoffset : ∀ pr ∈ l, u32 (pr.offset + (2 ^ 32 - len)) = pr.offset - len := by
    intro pr hpr
    have := h.inside pr hpr
    unfold u32
    omega
  refine ⟨?_, ?_, ?_⟩
  · intro x hx
    obtain ⟨pr, hpr, rfl⟩ := mem_map.mp hx
    have := h.inside pr hpr
    dsimp only
    rw [hoffset pr hpr]
    omega
  · intro x hx
    obtain ⟨pr, hpr, rfl⟩ := mem_map.mp hx
    exact h.pos pr hpr
  · rw [pairwise_map]
    refine h.sorted.imp_of_mem ?_
    intro a b ha hb hab
    have := h.inside a ha
    dsimp only
    rw [hoffset a ha, hoffset b hb]
    exact ⟨by omega, hab.2⟩

/-- The part of an address space around one of its regions. -/
theorem AddressSpaceOk.split (h : AddressSpaceOk block (lo ++ r :: hi)) :
    (∀ x ∈ lo, x.vaddr + x.length ≤ r.vaddr) ∧ (∀ x ∈ hi, r.vaddr + r.length ≤ x.vaddr) ∧
      lo.Pairwise (fun a b => a.vaddr + a.length ≤ b.vaddr) ∧
      hi.Pairwise (fun a b => a.vaddr + a.length ≤ b.vaddr) ∧
      ∀ x ∈ lo, ∀ y ∈ hi, x.vaddr + x.length ≤ y.vaddr := by
  obtain ⟨hlo, hhi, hacross⟩ := pairwise_append.mp h.sorted
  obtain ⟨hr, hhi⟩ := pairwise_cons.mp hhi
  exact ⟨fun x hx => hacross x hx r (by simp), hr, hlo, hhi, fun x hx y hy => hacross x hx y (by simp [hy])⟩

theorem VmState.mem_linkAt {l : List VirRegion} {x : VirRegion} :
    x ∈ VmState.linkAt l k r ↔ x = r ∨ x ∈ l := by
  have hsplit : x ∈ l ↔ x ∈ l.take k ∨ x ∈ l.drop k := by
    rw [← mem_append, take_append_drop]
  rw [linkAt, mem_append, mem_cons, hsplit]
  tauto

theorem AddressSpaceOk.linkAt {l : List VirRegion} (h : AddressSpaceOk block l)
    (hslot : VmState.Slot l minv maxv r.length r.vaddr k)
    (hr : RegionOk block r) : AddressSpaceOk block (VmState.linkAt l k r) where
  region x hx := by
    rcases VmState.mem_linkAt.mp hx with rfl | hx
    · exact hr
    · exact h.region x hx
  sorted := by
    have hsorted := h.sorted
    rw [← take_append_drop k l] at hsorted
    obtain ⟨hlo, hhi, hacross⟩ := pairwise_append.mp hsorted
    refine pairwise_append.mpr ⟨hlo, pairwise_cons.mpr ⟨hslot.after, hhi⟩, ?_⟩
    intro a ha b hb
    rcases mem_cons.mp hb with rfl | hb
    · exact hslot.before a ha
    · exact hacross a ha b hb

namespace VmState

/-! ## Layouts -/

/-- Every region is in its place and in one address space only. -/
structure PlacesOk (s : VmState) : Prop where
  space : ∀ p, AddressSpaceOk s.block (s.proc p).regions
  unique : ∀ p q, ∀ r ∈ (s.proc p).regions, ∀ x ∈ (s.proc q).regions, x.id = r.id → q = p ∧ x = r
  live : ∀ p, ∀ r ∈ (s.proc p).regions, (Kind.virRegion, r.id) ∈ s.live
  segments : ∀ p, (s.proc p).stacktop % pageSize = 0 ∧ (s.proc p).dataPhys % pageSize = 0

/-- Address spaces in order, with the references to blocks counted. -/
structure LayoutOk (s : VmState) : Prop extends PlacesOk s where
  counted : CountOk s (holders s)

@[simp] theorem setRegions_regions_self (s : VmState) (p : ProcNr) (l : List VirRegion) :
    ((s.setRegions p l).proc p).regions = l := by
  simp [setRegions, setProc]

@[simp] theorem setRegions_proc_of_ne {s : VmState} {q : ProcNr} {l : List VirRegion} (h : q ≠ p) :
    (s.setRegions p l).proc q = s.proc q := by
  simp [setRegions, setProc, h]

theorem setRegions_segments {s : VmState} {p q : ProcNr} {l : List VirRegion} :
    ((s.setRegions p l).proc q).stacktop = (s.proc q).stacktop ∧
      ((s.setRegions p l).proc q).dataPhys = (s.proc q).dataPhys := by
  by_cases h : q = p
  · subst h
    simp [setRegions, setProc]
  · simp [h]

theorem physRefs_le_holders (hr : r ∈ (s.proc p).regions) (b : Nat) : physRefs b r.phys ≤ holders s b := by
  have hone := Finset.single_le_sum (f := fun q => regionRefs b (s.proc q).regions) (fun _ _ => Nat.zero_le _)
    (Finset.mem_univ p)
  obtain ⟨lo, hi, hregions⟩ := append_of_mem hr
  simp only [hregions, regionRefs_append, regionRefs_cons] at hone
  unfold holders
  omega

theorem holders_pos (hr : r ∈ (s.proc p).regions)
    {pr : PhysRegion} (hpr : pr ∈ r.phys) : 0 < holders s pr.ph :=
  (physRefs_pos.mpr ⟨pr, hpr, rfl⟩).trans_le (physRefs_le_holders hr pr.ph)

theorem CountOk.of_eq {count count' : Nat → Nat} (h : CountOk s count) (heq : ∀ b, count' b = count b) :
    CountOk s count' := by
  rwa [show count' = count from funext heq]

/-- What keeps the processes, the regions and the lengths of blocks that are referred to. -/
theorem PlacesOk.of_same (h : PlacesOk s) (hprocs : SameProcs s s')
    (hregion : ∀ i, (Kind.virRegion, i) ∈ s.live → (Kind.virRegion, i) ∈ s'.live)
    (hlen : ∀ b, 0 < holders s b → (s'.block b).length = (s.block b).length) : PlacesOk s' where
  space p := by
    rw [hprocs.regions]
    refine ⟨?_, (h.space p).sorted⟩
    intro r hr
    exact ((h.space p).region r hr).congr fun pr hpr => hlen _ (holders_pos hr hpr)
  unique p q r hr x hx := by
    rw [hprocs.regions] at hr hx
    exact h.unique p q r hr x hx
  live p r hr := by
    rw [hprocs.regions] at hr
    exact hregion r.id (h.live p r hr)
  segments p := by
    rw [(hprocs.segments).1, (hprocs.segments).2]
    exact h.segments p

theorem LayoutOk.of_keeps (h : LayoutOk s) (hkeeps : Keeps s s') : LayoutOk s' where
  toPlacesOk := by
    refine h.toPlacesOk.of_same hkeeps.procs hkeeps.region ?_
    intro b hb
    rw [(hkeeps.block b (h.counted b hb).1).2]
  counted := (hkeeps.countOk h.counted).of_eq hkeeps.procs.holders

/-! ## Regions that are linked -/

/-- A new region in a free place. -/
theorem PlacesOk.link (h : PlacesOk s)
    (hslot : Slot (s.proc p).regions minv maxv r.length r.vaddr k) (hr : RegionOk s.block r)
    (hfresh : ∀ q, ∀ x ∈ (s.proc q).regions, x.id ≠ r.id) (hlive : (Kind.virRegion, r.id) ∈ s.live) :
    PlacesOk (s.setRegions p (linkAt (s.proc p).regions k r)) := by
  -- A region of the new state is the new one or was there before.
  have hold : ∀ q, ∀ x ∈ ((s.setRegions p (linkAt (s.proc p).regions k r)).proc q).regions,
      (q = p ∧ x = r) ∨ x ∈ (s.proc q).regions := by
    intro q x hx
    by_cases hq : q = p
    · subst hq
      rw [setRegions_regions_self] at hx
      rcases mem_linkAt.mp hx with hx | hx
      · exact .inl ⟨rfl, hx⟩
      · exact .inr hx
    · rw [setRegions_proc_of_ne hq] at hx
      exact .inr hx
  refine ⟨?_, ?_, ?_, ?_⟩
  · intro q
    by_cases hq : q = p
    · subst hq
      rw [setRegions_regions_self]
      exact (h.space q).linkAt hslot hr
    · rw [setRegions_proc_of_ne hq]
      exact h.space q
  · intro q q' x hx y hy hid
    rcases hold q x hx with ⟨rfl, rfl⟩ | hx'
    · rcases hold q' y hy with ⟨rfl, rfl⟩ | hy'
      · exact ⟨rfl, rfl⟩
      · exact absurd hid (hfresh q' y hy')
    · rcases hold q' y hy with ⟨rfl, rfl⟩ | hy'
      · exact absurd hid.symm (hfresh q x hx')
      · exact h.unique q q' x hx' y hy' hid
  · intro q x hx
    rcases hold q x hx with ⟨rfl, rfl⟩ | hx
    · exact hlive
    · exact h.live q x hx
  · intro q
    rw [setRegions_segments.1, setRegions_segments.2]
    exact h.segments q

theorem holders_linkAt (s : VmState) (p : ProcNr) (k : Nat) (r : VirRegion) (b : Nat) :
    holders (s.setRegions p (linkAt (s.proc p).regions k r)) b = holders s b + physRefs b r.phys := by
  have h := holders_setRegions s p (linkAt (s.proc p).regions k r) b
  rw [regionRefs_linkAt] at h
  omega

/-! ## mmap -/

theorem roundUp_aligned (len : Nat) : roundUp len % pageSize = 0 := by
  unfold roundUp u32 pageSize
  split <;> omega

theorem archVir2map_aligned {vmp : VmProc} (h : vmp.dataPhys % pageSize = 0)
    (haddr : addr % pageSize = 0) : archVir2map vmp addr % pageSize = 0 := by
  unfold archVir2map u32
  unfold pageSize at *
  omega

theorem NewContents.physOk
    (h : NewContents s s' r length) (hpos : 0 < length) : PhysOk s'.block 0 length r.phys := by
  rcases h with hnil | ⟨pr, hone, hnew⟩
  · rw [hnil]
    exact ⟨by simp, by simp, .nil⟩
  rw [hone]
  refine ⟨?_, ?_, pairwise_singleton _ _⟩
  · intro x hx
    obtain rfl := mem_singleton.mp hx
    rw [hnew.offset, hnew.length]
    omega
  · intro x hx
    obtain rfl := mem_singleton.mp hx
    rw [hnew.length]
    exact hpos

/-- The block of a new region is counted. -/
theorem NewContents.countOk
    (h : NewContents s s' r length) (hs : CountOk s (holders s)) (hkeeps : Keeps s s') :
    CountOk s' fun b => holders s b + physRefs b r.phys := by
  have hs' := hkeeps.countOk hs
  rcases h with hnil | ⟨pr, hone, hnew⟩
  · simp only [hnil, physRefs_nil, Nat.add_zero]
    exact hs'
  intro b hb
  dsimp only at hb ⊢
  rw [hone, physRefs_cons, physRefs_nil] at hb ⊢
  have hzero := hs.fresh hnew.fresh
  by_cases hbp : pr.ph = b
  · subst hbp
    rw [if_pos rfl, hzero]
    exact ⟨hnew.live, hnew.refcount, by omega⟩
  · simp only [if_neg hbp, Nat.add_zero] at hb ⊢
    exact hs' b hb

theorem LayoutOk.mapPageRegion (h : LayoutOk s) (env : Env) (p : ProcNr)
    (hmin : minv % pageSize = 0) (hlen : length % pageSize = 0) (hpos : 0 < length) (flags : BitVec 16)
    (prealloc : Bool) : LayoutOk (s.mapPageRegion env p minv dataTop length none flags prealloc).2 := by
  rcases mapPageRegion_spec with
    hkeeps | ⟨v, k, r, s1, hfind, hnew, heq⟩
  · exact h.of_keeps hkeeps
  rw [heq]
  have h1 := h.of_keeps hnew.keeps
  have hregions := hnew.keeps.procs.regions
  have hslot : Slot (s1.proc p).regions minv dataTop r.length r.vaddr k := by
    rw [hregions, hnew.vaddr_eq, hnew.length_eq]
    exact findSlot_some (h.space p) hfind
  have hfresh : ∀ q, ∀ x ∈ (s1.proc q).regions, x.id ≠ r.id := by
    intro q x hx heq
    rw [hregions] at hx
    exact hnew.fresh (heq ▸ h.live q x hx)
  have hr : RegionOk s1.block r := by
    refine ⟨hslot.aligned hmin, ?_, ?_, hslot.top, ?_⟩
    · rw [hnew.length_eq]
      exact hlen
    · rw [hnew.length_eq]
      exact hpos
    · rw [hnew.length_eq]
      exact hnew.contents.physOk hpos
  refine ⟨h1.toPlacesOk.link hslot hr hfresh hnew.live, ?_⟩
  refine (hnew.contents.countOk h.counted hnew.keeps).of_eq fun b => ?_
  rw [holders_linkAt, hnew.keeps.procs.holders]

theorem LayoutOk.doMmap (h : LayoutOk s) {env : Env} {p : ProcNr} {fd : Int}
    {flags : BitVec 32} (haddr : addr % pageSize = 0) (hlen : 0 < roundUp len) :
    LayoutOk (s.doMmap env p fd flags addr len).2 := by
  unfold VmState.doMmap
  split
  · exact h
  split
  · split
    · exact h
    dsimp only
    have hmin : archVir2map (s.proc p) (if addr ≠ 0 then addr else (s.proc p).stacktop) % pageSize = 0 := by
      refine archVir2map_aligned (h.segments p).2 ?_
      split
      · exact haddr
      · exact (h.segments p).1
    have hnew := h.mapPageRegion env p hmin (roundUp_aligned len) hlen (regionFlags flags)
      (flags &&& mapPrealloc != 0#32)
    generalize s.mapPageRegion env p _ _ _ _ _ _ = m at hnew ⊢
    obtain ⟨res, s1⟩ := m
    cases res <;> exact hnew
  · exact h

/-! ## munmap -/

/-- The other regions of the process have other numbers. -/
theorem PlacesOk.id_ne (h : PlacesOk s)
    (hregions : (s.proc p).regions = lo ++ r :: hi) : ∀ x ∈ lo ++ hi, x.id ≠ r.id := by
  have hspace := h.space p
  rw [hregions] at hspace
  obtain ⟨hlo, hhi, -⟩ := hspace.split
  have hpos := (hspace.region r (by simp)).pos
  intro x hx hid
  have hmem : x ∈ (s.proc p).regions := by
    rw [hregions]
    rcases mem_append.mp hx with hx | hx <;> simp [hx]
  obtain ⟨-, rfl⟩ := h.unique p p r (by rw [hregions]; simp) x hmem hid
  rcases mem_append.mp hx with hx | hx
  · have := hlo x hx
    omega
  · have := hhi x hx
    omega

/-- A region that is not the one with number `i` in a state without that one. -/
theorem PlacesOk.ne_of_other (h : PlacesOk s) {q : ProcNr}
    {x : VirRegion} (hregions : (s.proc p).regions = lo ++ r :: hi)
    (hx : x ∈ ((s.setRegions p (lo ++ hi)).proc q).regions) :
    x ∈ (s.proc q).regions ∧ x.id ≠ r.id := by
  by_cases hq : q = p
  · subst hq
    rw [setRegions_regions_self] at hx
    refine ⟨?_, h.id_ne hregions x hx⟩
    rw [hregions]
    rcases mem_append.mp hx with hx | hx <;> simp [hx]
  · rw [setRegions_proc_of_ne hq] at hx
    refine ⟨hx, ?_⟩
    intro hid
    exact hq (h.unique p q r (by rw [hregions]; simp) x hx hid).1

/-- A region goes. -/
theorem PlacesOk.remove (h : PlacesOk s) (hregions : (s.proc p).regions = lo ++ r :: hi)
    (hprocs : SameProcs (s.setRegions p (lo ++ hi)) s')
    (hlive : ∀ i, i ≠ r.id → (Kind.virRegion, i) ∈ s.live → (Kind.virRegion, i) ∈ s'.live)
    (hlen : ∀ b, 0 < holders (s.setRegions p (lo ++ hi)) b → (s'.block b).length = (s.block b).length) :
    PlacesOk s' where
  space q := by
    rw [hprocs.regions]
    refine ⟨?_, ?_⟩
    · intro x hx
      obtain ⟨hx', -⟩ := h.ne_of_other hregions hx
      exact ((h.space q).region x hx').congr fun pr hpr => hlen _ (holders_pos hx hpr)
    · by_cases hq : q = p
      · subst hq
        have hspace := h.space q
        rw [hregions] at hspace
        obtain ⟨-, -, hlo, hhi, hacross⟩ := hspace.split
        rw [setRegions_regions_self]
        exact pairwise_append.mpr ⟨hlo, hhi, hacross⟩
      · rw [setRegions_proc_of_ne hq]
        exact (h.space q).sorted
  unique q q' x hx y hy := by
    rw [hprocs.regions] at hx hy
    exact h.unique q q' x (h.ne_of_other hregions hx).1 y (h.ne_of_other hregions hy).1
  live q x hx := by
    rw [hprocs.regions] at hx
    obtain ⟨hx, hne⟩ := h.ne_of_other hregions hx
    exact hlive x.id hne (h.live q x hx)
  segments q := by
    rw [(hprocs.segments).1, (hprocs.segments).2, setRegions_segments.1,
      setRegions_segments.2]
    exact h.segments q

/-- The references without one region. -/
theorem holders_without {s : VmState} (hregions : (s.proc p).regions = lo ++ r :: hi) (b : Nat) :
    holders (s.setRegions p (lo ++ hi)) b + physRefs b r.phys = holders s b := by
  have h := holders_setRegions s p (lo ++ hi) b
  rw [hregions, regionRefs_append, regionRefs_cons, regionRefs_append] at h
  omega

theorem mapLookup_mem {offset : Nat} (h : mapLookup regions offset = some r) : r ∈ regions :=
  mem_of_find?_eq_some h

theorem SameProcs.setRegions (h : SameProcs s s') (p : ProcNr) (l : List VirRegion) :
    SameProcs (s.setRegions p l) (s'.setRegions p l) := by
  intro q
  by_cases hq : q = p
  · subst hq
    have hself := congrArg (fun vmp : VmProc => { vmp with regions := l }) (h q)
    simpa [VmState.setRegions, setProc] using hself
  · rw [setRegions_proc_of_ne hq, setRegions_proc_of_ne hq]
    exact h q

/-- A whole region is freed. -/
theorem LayoutOk.mapFree (h : LayoutOk s) (env : Env)
    (hregions : (s.proc p).regions = lo ++ r :: hi) :
    LayoutOk ((s.setRegions p (lo ++ hi)).mapFree env p r).2 := by
  have hr : r ∈ (s.proc p).regions := by simp [hregions]
  have hphys := ((h.space p).region r hr).phys
  have hle := physRefs_le_holders hr
  -- The counts are still those with the region.
  have hcount : CountOk (s.setRegions p (lo ++ hi)) (holders s) := h.counted
  have hphys0 : PhysOk (s.setRegions p (lo ++ hi)).block 0 r.length r.phys := hphys
  have hlen0 : ∀ b, ((s.setRegions p (lo ++ hi)).block b).length = (s.block b).length := fun _ => rfl
  have hlive0 : ∀ i, (Kind.virRegion, i) ∈ s.live → (Kind.virRegion, i) ∈ (s.setRegions p (lo ++ hi)).live :=
    fun _ hi => hi
  have hwithout := holders_without hregions
  have hremove := fun s' => @PlacesOk.remove r lo hi p s s' h.toPlacesOk hregions
  generalize s.setRegions p (lo ++ hi) = s0 at hcount hphys0 hlen0 hlive0 hwithout hremove ⊢
  unfold VmState.mapFree mapSubfree
  have hwhole : (subfree env p r r.length r.phys s0).1 = ok :=
    subfree_whole (fun pr hpr => (hphys0.inside pr hpr).2) env p r
  have hsub := subfree_spec hcount hle hphys0 hwhole
  generalize subfree env p r r.length r.phys s0 = sub at hwhole hsub ⊢
  obtain ⟨res, phys, s1⟩ := sub
  dsimp only at hwhole hsub ⊢
  obtain rfl := hsub.phys.eq_nil
  rw [if_neg (by simp [hwhole])]
  have hother : ∀ b, 0 < holders s0 b → (s1.block b).length = (s0.block b).length := by
    intro b hb
    have := hwithout b
    exact hsub.other b (by omega)
  refine ⟨hremove _ hsub.procs ?_ ?_, ?_⟩
  · intro i hne hi
    refine Finset.mem_erase.mpr ⟨by simpa using hne, Finset.mem_erase.mpr ⟨by simp, ?_⟩⟩
    exact hsub.region i (hlive0 i hi)
  · intro b hb
    exact (hother b hb).trans (hlen0 b)
  refine CountOk.of_eq (fun b hb => ?_) fun b => (hsub.procs.holders b).trans (Nat.eq_sub_of_add_eq (hwithout b))
  obtain ⟨hlive, hrefs, hlt⟩ := hsub.counted b hb
  exact ⟨Finset.mem_erase.mpr ⟨by simp, Finset.mem_erase.mpr ⟨by simp, hlive⟩⟩, hrefs, hlt⟩

theorem physRefs_shrink (r : VirRegion) (len b : Nat) :
    physRefs b (shrinkRegion r len).phys = physRefs b r.phys := by
  simp only [shrinkRegion, physRefs, countP_map]
  rfl

/-- A region is exchanged for one with the same number that does not start earlier. -/
theorem PlacesOk.exchange {s1 : VmState} {r' : VirRegion} (h : PlacesOk s)
    (hregions : (s.proc p).regions = lo ++ r :: hi) (hprocs : SameProcs s s1)
    (hlive : ∀ i, (Kind.virRegion, i) ∈ s.live → (Kind.virRegion, i) ∈ s1.live)
    (hlen : ∀ b, 0 < holders (s.setRegions p (lo ++ hi)) b → (s1.block b).length = (s.block b).length)
    (hr : RegionOk s1.block r') (hid : r'.id = r.id) (hstart : r.vaddr ≤ r'.vaddr)
    (hend : ∀ x ∈ hi, r'.vaddr + r'.length ≤ x.vaddr) : PlacesOk (s1.setRegions p (lo ++ r' :: hi)) := by
  have hsame := hprocs.setRegions p (lo ++ hi)
  have hremoved := h.remove hregions hsame (fun i _ hi => hlive i hi) hlen
  have hspace := h.space p
  rw [hregions] at hspace
  have hslot : Slot ((s1.setRegions p (lo ++ hi)).proc p).regions 0 dataTop r'.length r'.vaddr lo.length := by
    rw [setRegions_regions_self]
    refine ⟨Nat.zero_le _, hr.top, hr.top, fun _ => hr.vaddr, ?_, ?_⟩
    · rw [take_left]
      exact fun x hx => (hspace.split.1 x hx).trans hstart
    · rw [drop_left]
      exact hend
  have hfresh : ∀ q, ∀ x ∈ ((s1.setRegions p (lo ++ hi)).proc q).regions, x.id ≠ r'.id := by
    intro q x hx
    rw [hsame.regions] at hx
    exact hid ▸ (h.ne_of_other hregions hx).2
  have hlinked := hremoved.link hslot hr hfresh (hid ▸ hlive r.id (h.live p r (by simp [hregions])))
  simpa [setRegions, setProc, linkAt] using hlinked

/-- The start of a region is freed. -/
theorem LayoutOk.mapSubfree (h : LayoutOk s) {env : Env}
    (hregions : (s.proc p).regions = lo ++ r :: hi)
    (hpos : 0 < len) (hlt : len < r.length) (haligned : len % pageSize = 0)
    (hok : (s.mapSubfree env p r len).1 = ok) :
    LayoutOk ((s.mapSubfree env p r len).2.2.setRegions p
      (lo ++ shrinkRegion (s.mapSubfree env p r len).2.1 len :: hi)) := by
  have hr : r ∈ (s.proc p).regions := by simp [hregions]
  have hspace := h.space p
  have hrok := hspace.region r hr
  have hle := physRefs_le_holders hr
  unfold VmState.mapSubfree at hok ⊢
  have hsub := subfree_spec h.counted hle hrok.phys hok
  generalize subfree env p r len r.phys s = sub at hok hsub ⊢
  obtain ⟨res, phys, s1⟩ := sub
  have htop := hrok.top
  have hu : u32 (r.vaddr + len) = r.vaddr + len := u32_of_le_dataTop (by omega)
  have hr1 : RegionOk s1.block (shrinkRegion { r with phys := phys } len) := by
    have hv := hrok.vaddr
    have hl := hrok.length
    refine ⟨?_, ?_, ?_, ?_, ?_⟩
    · show u32 (r.vaddr + len) % pageSize = 0
      unfold pageSize at *
      omega
    · show (r.length - len) % pageSize = 0
      unfold pageSize at *
      omega
    · show 0 < r.length - len
      omega
    · show u32 (r.vaddr + len) + (r.length - len) ≤ dataTop
      omega
    · have hlast : r.length < 2 ^ 32 := by
        unfold dataTop at htop
        omega
      exact hsub.phys.shift hpos hlast
  refine ⟨h.exchange hregions hsub.procs hsub.region (fun b hb => ?_) hr1 rfl ?_ fun x hx => ?_,
    hsub.counted.of_eq fun b => ?_⟩
  · have := holders_without hregions b
    exact hsub.other b (by omega)
  · show r.vaddr ≤ u32 (r.vaddr + len)
    omega
  · rw [hregions] at hspace
    have := hspace.split.2.1 x hx
    show u32 (r.vaddr + len) + (r.length - len) ≤ _
    omega
  · have hset := holders_setRegions s1 p (lo ++ shrinkRegion { r with phys := phys } len :: hi) b
    rw [hsub.procs.regions, hregions, hsub.procs.holders] at hset
    simp only [regionRefs_append, regionRefs_cons, physRefs_shrink] at hset ⊢
    have := hle b
    omega

/-- `map_unmap_region` when its `map_subfree` does not fail. -/
theorem LayoutOk.mapUnmapRegion (h : LayoutOk s) {env : Env}
    (hr : r ∈ (s.proc p).regions) (hpos : 0 < len)
    (hok : len < r.length → (s.mapSubfree env p r len).1 = ok) :
    LayoutOk (s.mapUnmapRegion env p r len).2 := by
  obtain ⟨lo, hi, hregions⟩ := append_of_mem hr
  have hne := h.id_ne hregions
  have hne_lo : ∀ x ∈ lo, x.id ≠ r.id := fun x hx => hne x (mem_append_left _ hx)
  have hne_hi : ∀ x ∈ hi, x.id ≠ r.id := fun x hx => hne x (mem_append_right _ hx)
  unfold VmState.mapUnmapRegion
  split
  · exact h
  rename_i hargs
  push Not at hargs
  split
  · exact h
  extract_lets s0 s1
  suffices h1 : LayoutOk s1 by
    have hpt := h1.of_keeps (keeps_ptWritemap s1 env p r.vaddr len none)
    generalize s1.ptWritemap env p r.vaddr len none = w at hpt ⊢
    obtain ⟨done, u⟩ := w
    cases done <;> exact hpt
  -- The region is gone, or has lost its start.
  unfold s1 s0
  split
  · have hfilter : ((s.proc p).regions.filter fun x => x.id ≠ r.id) = lo ++ hi := by
      rw [hregions, filter_append, filter_cons_of_neg (by simp),
        filter_eq_self.mpr (by simpa using hne_lo), filter_eq_self.mpr (by simpa using hne_hi)]
    rw [hfilter]
    exact h.mapFree env hregions
  · have hlt : len < r.length := by omega
    have hpart := h.mapSubfree hregions hpos hlt hargs.2 (hok hlt)
    have hsub := subfree_spec h.counted (physRefs_le_holders hr) ((h.space p).region r hr).phys (hok hlt)
    have hsame : ((s.mapSubfree env p r len).2.2.proc p).regions = lo ++ r :: hi := (hsub.procs.regions p).trans hregions
    have hmap : ∀ y : VirRegion, (lo ++ r :: hi).map (fun x => if x.id = r.id then y else x)
        = lo ++ y :: hi := by
      intro y
      rw [map_append, map_cons, if_pos rfl]
      congr 1
      · exact (map_congr_left fun x hx => if_neg (hne_lo x hx)).trans (map_id lo)
      · congr 1
        exact (map_congr_left fun x hx => if_neg (hne_hi x hx)).trans (map_id hi)
    dsimp only
    rw [hsame, hmap]
    exact hpart

/-- The address that `munmap` is for. -/
def munmapAddr (s : VmState) (p : ProcNr) (text : Bool) (addr : Nat) : Nat :=
  if text then archVir2mapText (s.proc p) addr else archVir2map (s.proc p) addr

theorem LayoutOk.doMunmap (h : LayoutOk s) {env : Env} {p : ProcNr} {text : Bool} {addr len : Nat}
    (hok : ∀ vr, mapLookup (s.proc p).regions (munmapAddr s p text addr) = some vr →
      roundUp len < vr.length → (s.mapSubfree env p vr (roundUp len)).1 = ok)
    (hgo : (s.doMunmap env p text addr len).2.halt = none) :
    LayoutOk (s.doMunmap env p text addr len).2 := by
  revert hgo
  unfold VmState.doMunmap
  dsimp only
  rw [← munmapAddr]
  split
  · exact fun _ => h
  split
  · exact fun hgo => absurd hgo (by simp [panic])
  rcases hfind : mapLookup (s.proc p).regions (munmapAddr s p text addr) with _ | vr
  · exact fun _ => h
  dsimp only
  split
  · exact fun _ => h
  rename_i hlen
  unfold pageSize at hlen
  have hunmap := h.mapUnmapRegion (mapLookup_mem hfind) (by omega) (hok vr hfind)
  generalize s.mapUnmapRegion env p vr (roundUp len) = m at hunmap ⊢
  obtain ⟨res, s1⟩ := m
  dsimp only
  split
  · exact fun hgo => absurd hgo (by simp [panic])
  · exact fun _ => hunmap

/-! ## remap -/

/-- A region with the blocks of another is linked, and its references are counted. -/
theorem LayoutOk.linkCopy {s1 : VmState} (h : LayoutOk s) {env : Env} {d src : ProcNr}
    {vr : VirRegion} (hregion : region ∈ (s.proc src).regions) (hcopied : CopiesRegion s s1 region vr)
    (hslot : Slot (s.proc d).regions minv dataTop vr.length vr.vaddr k)
    (hmin : minv % pageSize = 0) (hlen : vr.length % pageSize = 0) (hsize : 0 < vr.length)
    (hin : ∀ pr ∈ region.phys, pr.offset + (s.block pr.ph).length ≤ vr.length)
    (hroom : ∀ pr ∈ region.phys, (s.block pr.ph).refcount < 255) (hgo : (remapPhys env d vr vr.phys
      (s1.setRegions d (VmState.linkAt (s1.proc d).regions k vr))).halt = none) :
    LayoutOk (remapPhys env d vr vr.phys (s1.setRegions d (VmState.linkAt (s1.proc d).regions k vr))) := by
  have h1 := h.of_keeps hcopied.keeps
  have hregions := hcopied.keeps.procs.regions
  have hphys := ((h.space src).region region hregion).phys
  -- The blocks of the source are those of the copy.
  have hsrc : ∀ pr ∈ region.phys, s1.block pr.ph = s.block pr.ph := fun pr hpr =>
    (hcopied.keeps.block pr.ph (h.counted pr.ph (holders_pos hregion hpr)).1).2
  have hr : RegionOk s1.block vr := by
    refine ⟨hslot.aligned hmin, hlen, hsize, hslot.top, ?_⟩
    refine physOk_of_map (hphys.congr fun pr hpr => by rw [hsrc pr hpr]) ?_ hcopied.phys
    intro pr hpr
    rw [hsrc pr hpr]
    exact hin pr hpr
  have hfresh : ∀ q, ∀ x ∈ (s1.proc q).regions, x.id ≠ vr.id := by
    intro q x hx heq
    rw [hregions] at hx
    exact hcopied.fresh (heq ▸ h.live q x hx)
  rw [← hregions] at hslot
  have hlinked := h1.toPlacesOk.link hslot hr hfresh hcopied.live
  have hholders := holders_linkAt s1 d k vr
  have hcount : CountOk (s1.setRegions d (linkAt (s1.proc d).regions k vr)) (holders s) :=
    hcopied.keeps.countOk h.counted
  generalize s1.setRegions d (linkAt (s1.proc d).regions k vr) = s2 at hlinked hholders hcount hgo ⊢
  have hrefs := physRefs_of_map hcopied.phys
  have hpos : ∀ pr ∈ vr.phys, 0 < holders s pr.ph := by
    intro pr hpr
    have hin : 0 < physRefs pr.ph region.phys := by
      rw [← hrefs]
      exact physRefs_pos.mpr ⟨pr, hpr, rfl⟩
    obtain ⟨x, hx, hxp⟩ := physRefs_pos.mp hin
    rw [← hxp]
    exact holders_pos hregion hx
  have hlt : ∀ b, holders s b + physRefs b vr.phys < 256 ∨ physRefs b vr.phys = 0 := by
    intro b
    rw [hrefs]
    by_cases hzero : physRefs b region.phys = 0
    · exact .inr hzero
    · obtain ⟨x, hx, rfl⟩ := physRefs_pos.mp (Nat.pos_of_ne_zero hzero)
      have hcounted := (h.counted x.ph (holders_pos hregion hx)).2.1
      have hlt := hroom x hx
      have hone := hphys.physRefs_le_one x.ph
      omega
  obtain ⟨hkeeps, hcounted⟩ := remapPhys_spec hcount hpos hlt hgo
  refine ⟨hlinked.of_same hkeeps.procs hkeeps.region fun b _ => hkeeps.length b, hcounted.of_eq fun b => ?_⟩
  rw [hkeeps.procs.holders, hholders, hcopied.keeps.procs.holders]

theorem LayoutOk.mapRemap (h : LayoutOk s) {env : Env} {d src : ProcNr} {da size : Nat}
    (hregion : region ∈ (s.proc src).regions) (hda : da % pageSize = 0) (hsize : 0 < roundUp size)
    (hin : ∀ pr ∈ region.phys, pr.offset + (s.block pr.ph).length ≤ roundUp size)
    (hroom : ∀ pr ∈ region.phys, (s.block pr.ph).refcount < 255)
    (hcopy : (s.mapCopyRegion env d region).1 ≠ none)
    (hgo : (s.mapRemap env d da size region).2.halt = none) :
    LayoutOk (s.mapRemap env d da size region).2 := by
  revert hgo
  unfold VmState.mapRemap
  dsimp only
  have hmin : archVir2map (s.proc d) (if da = 0 then (s.proc d).stacktop else da) % pageSize = 0 := by
    refine archVir2map_aligned (h.segments d).2 ?_
    split
    · exact (h.segments d).1
    · exact hda
  generalize archVir2map (s.proc d) (if da = 0 then (s.proc d).stacktop else da) = dstAddr at hmin ⊢
  have hlen := roundUp_aligned size
  generalize roundUp size = length at hlen hsize hin ⊢
  rcases hfind : regionFindSlot (s.proc d).regions dstAddr dataTop length with _ | ⟨v, k⟩
  · exact fun _ => h
  dsimp only
  split
  · exact fun _ => h
  obtain ⟨copy, hsome⟩ := Option.ne_none_iff_exists'.mp hcopy
  have hcopied := mapCopyRegion_spec hsome
  generalize s.mapCopyRegion env d region = m at hsome hcopied ⊢
  obtain ⟨res, s1⟩ := m
  obtain rfl : res = some copy := hsome
  have hcopied' : CopiesRegion s s1 region
      { copy with vaddr := v, length := length, tag := RegionTag.none } :=
    ⟨hcopied.keeps, hcopied.fresh, hcopied.live, hcopied.phys⟩
  exact h.linkCopy hregion hcopied' (findSlot_some (h.space d) hfind) hmin hlen hsize hin hroom

/-! ## brk -/

/-- What `map_region_extend` does to the regions: nothing, or one grows up to the next. -/
theorem extendIn_cases {id : Nat} (hdelta : delta < 2 ^ 32)
    {l : List VirRegion} (h : AddressSpaceOk block regions) {res : Int}
    (hext : extendIn id delta regions = some (res, l)) :
    l = regions ∨ ∃ lo r hi, regions = lo ++ r :: hi ∧ r.id = id ∧
      l = lo ++ { r with length := r.length + delta } :: hi ∧
      ∀ next ∈ hi, r.vaddr + r.length + delta ≤ next.vaddr := by
  induction regions generalizing l with
  | nil => exact absurd hext (by simp [extendIn])
  | cons vr rest ih =>
    unfold extendIn at hext
    split at hext
    · rename_i hid
      have htop := (h.region vr (by simp)).top
      have hlast : u32 (vr.vaddr + vr.length) = vr.vaddr + vr.length := u32_of_le_dataTop htop
      rw [hlast] at hext
      dsimp only at hext
      split at hext
      · exact .inl (Prod.mk.inj (Option.some.inj hext)).2.symm
      split at hext
      · exact .inl (Prod.mk.inj (Option.some.inj hext)).2.symm
      rename_i hwrap
      have hend : u32 (vr.vaddr + vr.length + delta) = vr.vaddr + vr.length + delta := by
        unfold u32 at hwrap ⊢
        omega
      have hlen : u32 (vr.length + delta) = vr.length + delta := by
        unfold u32 at hend ⊢
        omega
      rw [hend, hlen] at hext
      cases rest with
      | nil =>
        obtain rfl := (Prod.mk.inj (Option.some.inj hext)).2
        exact .inr ⟨[], vr, [], rfl, hid, rfl, by simp⟩
      | cons first others =>
        by_cases hroom : vr.vaddr + vr.length + delta ≤ first.vaddr
        · rw [if_pos (decide_eq_true hroom)] at hext
          obtain rfl := (Prod.mk.inj (Option.some.inj hext)).2
          refine .inr ⟨[], vr, first :: others, rfl, hid, rfl, ?_⟩
          intro next hnext
          rcases mem_cons.mp hnext with rfl | hnext
          · exact hroom
          · have hapart := (pairwise_cons.mp h.tail.sorted).1 next hnext
            omega
        · rw [if_neg (by simpa using hroom)] at hext
          exact .inl (Prod.mk.inj (Option.some.inj hext)).2.symm
    · rcases hrest : extendIn id delta rest with _ | ⟨res', l'⟩
      · rw [hrest] at hext
        simp at hext
      · rw [hrest] at hext
        obtain ⟨rfl, rfl⟩ : res' = res ∧ vr :: l' = l := by simpa using hext
        rcases ih h.tail hrest with rfl | ⟨lo, r, hi, rfl, hid, rfl, hnext⟩
        · exact .inl rfl
        · exact .inr ⟨vr :: lo, r, hi, rfl, hid, rfl, hnext⟩

/-- A region grows up to the next one, or up to the top if it is the last. -/
theorem LayoutOk.grow (h : LayoutOk s)
    (hregions : (s.proc p).regions = lo ++ r :: hi) (haligned : delta % pageSize = 0)
    (hnext : ∀ x ∈ hi, r.vaddr + r.length + delta ≤ x.vaddr)
    (hlast : hi = [] → r.vaddr + r.length + delta ≤ dataTop) :
    LayoutOk (s.setRegions p (lo ++ { r with length := r.length + delta } :: hi)) := by
  have hspace := h.space p
  have hrok := hspace.region r (by simp [hregions])
  have htop : r.vaddr + r.length + delta ≤ dataTop := by
    cases hi with
    | nil => exact hlast rfl
    | cons next others =>
      have hle := hnext next (by simp)
      have hnextTop := (hspace.region next (by rw [hregions]; simp)).top
      omega
  have hr' : RegionOk s.block { r with length := r.length + delta } := by
    refine ⟨hrok.vaddr, ?_, ?_, ?_, ?_⟩
    · have hl := hrok.length
      show (r.length + delta) % pageSize = 0
      unfold pageSize at *
      omega
    · have hpos := hrok.pos
      show 0 < r.length + delta
      omega
    · show r.vaddr + (r.length + delta) ≤ dataTop
      omega
    · refine ⟨?_, hrok.phys.pos, hrok.phys.sorted⟩
      intro pr hpr
      have hin := hrok.phys.inside pr hpr
      exact ⟨hin.1, Nat.le_trans hin.2 (Nat.le_add_right _ _)⟩
  refine ⟨h.exchange hregions .refl (fun _ hi => hi) (fun _ _ => rfl) hr' rfl le_rfl fun x hx => ?_,
    h.counted.of_eq fun b => ?_⟩
  · have hle := hnext x hx
    show r.vaddr + (r.length + delta) ≤ _
    omega
  · have hset := holders_setRegions s p (lo ++ { r with length := r.length + delta } :: hi) b
    rw [hregions] at hset
    simp only [regionRefs_append, regionRefs_cons] at hset
    omega

/-- By how much `brk` to `addr` extends the heap. -/
def brkGrowth (s : VmState) (p : ProcNr) (addr : Nat) : Nat :=
  let clicks := u32 (addr + (pageSize - 1)) / pageSize - (s.proc p).dataVir
  u32 ((clicks - (s.proc p).dataLen) * pageSize)

/-- The layout does not depend on anything else. -/
theorem LayoutOk.congr (h : LayoutOk s)
    (hproc : ∀ q, (s'.proc q).regions = (s.proc q).regions ∧ (s'.proc q).stacktop = (s.proc q).stacktop ∧
      (s'.proc q).dataPhys = (s.proc q).dataPhys)
    (hblock : s'.block = s.block) (hlive : s'.live = s.live) : LayoutOk s' where
  space q := by
    rw [(hproc q).1, hblock]
    exact h.space q
  unique q q' r hr x hx := by
    rw [(hproc _).1] at hr hx
    exact h.unique q q' r hr x hx
  live q r hr := by
    rw [(hproc _).1] at hr
    rw [hlive]
    exact h.live q r hr
  segments q := by
    rw [(hproc q).2.1, (hproc q).2.2]
    exact h.segments q
  counted := (h.counted.congr hlive fun _ => by rw [hblock]).of_eq fun b =>
    Finset.sum_congr rfl fun q _ => by rw [(hproc q).1]

/-- `brk` keeps the layout if the heap stays below the top. -/
theorem LayoutOk.doBrk (h : LayoutOk s) {p : ProcNr} {addr sp : Nat}
    (hheap : ∀ r, (s.proc p).regions.getLast? = some r → (s.proc p).heap = some r.id →
      r.vaddr + r.length + brkGrowth s p addr ≤ dataTop) :
    LayoutOk (s.doBrk (some p) addr sp).2 := by
  unfold VmState.doBrk
  dsimp only
  have hgrowth : brkGrowth s p addr = u32 ((u32 (addr + (pageSize - 1)) / pageSize - (s.proc p).dataVir
      - (s.proc p).dataLen) * pageSize) := rfl
  generalize u32 (addr + (pageSize - 1)) / pageSize = clicks at hgrowth ⊢
  split
  · exact h
  generalize clicks - (s.proc p).dataVir = dataClicks at hgrowth ⊢
  unfold adjust
  dsimp only
  split
  · exact h
  generalize min (sp / pageSize) (s.proc p).stackVir = spLower
  split
  · exact h
  generalize hs1 : s.setProc p { s.proc p with
      dataLen := dataClicks, stackVir := spLower,
      stackLen := (s.proc p).stackLen + ((s.proc p).stackVir - spLower) } = s1
  have hregions : (s1.proc p).regions = (s.proc p).regions := by
    rw [← hs1]
    simp [setProc]
  have h1 : LayoutOk s1 := by
    refine h.congr ?_ (by rw [← hs1]; rfl) (by rw [← hs1]; rfl)
    intro q
    rw [← hs1]
    by_cases hq : q = p
    · subst hq
      simp [setProc]
    · simp [setProc, hq]
  split
  · rename_i heap _ hid
    split
    · have hext : LayoutOk (s1.mapRegionExtend p heap
          (u32 ((dataClicks - (s.proc p).dataLen) * pageSize))).2 := by
        rw [← hgrowth]
        have hdelta : brkGrowth s p addr < 2 ^ 32 := Nat.mod_lt _ (by decide)
        have haligned : brkGrowth s p addr % pageSize = 0 := by
          rw [hgrowth]
          unfold u32 pageSize
          omega
        unfold mapRegionExtend
        rcases hres : extendIn heap (brkGrowth s p addr) (s1.proc p).regions with _ | ⟨res, l⟩
        · exact h1.congr (fun _ => ⟨rfl, rfl, rfl⟩) rfl rfl
        dsimp only
        rcases extendIn_cases hdelta (h1.space p) hres with hsame | ⟨lo, r, hi, hsplit, hrid, hl, hnext⟩
        · rw [hsame, setRegions, setProc, Function.update_eq_self]
          exact h1
        rw [hl]
        refine h1.grow hsplit haligned hnext ?_
        rintro rfl
        refine hheap r ?_ (by rw [hid, hrid])
        rw [← hregions, hsplit]
        simp
      generalize s1.mapRegionExtend p heap (u32 ((dataClicks - (s.proc p).dataLen) * pageSize)) = m
        at hext ⊢
      obtain ⟨res, s2⟩ := m
      exact hext
    · exact h1
  · exact h1

/-! ## Runs -/

/-- The slot that `region_find_slot` is to be in ends here. -/
def slotEnd (minv maxv length : Nat) : Nat := if maxv = 0 then minv + length else maxv

theorem regionFindSlot_some (h : AddressSpaceOk block regions) {v : Nat}
    (hfind : regionFindSlot regions minv maxv length = some (v, k)) :
    Slot regions minv (slotEnd minv maxv length) length v k := by
  unfold regionFindSlot at hfind
  unfold slotEnd
  split at hfind
  · rename_i hzero
    rw [if_pos hzero]
    split at hfind
    · simp at hfind
    · have hslot := findSlot_some h hfind
      have hle : u32 (minv + length) ≤ minv + length := Nat.mod_le _ _
      exact { hslot with max := Nat.le_trans hslot.max hle }
  · rename_i hzero
    rw [if_neg hzero]
    exact findSlot_some h hfind

theorem regionFindSlot_none (h : AddressSpaceOk block regions) (hpos : 0 < length)
    (hfind : regionFindSlot regions minv maxv length = none) {v : Nat} (hmin : minv ≤ v)
    (hmax : v + length ≤ slotEnd minv maxv length) (htop : v + length ≤ dataTop) :
    ¬ RangeFree regions v length := by
  unfold regionFindSlot at hfind
  unfold slotEnd at hmax
  split at hfind
  · rename_i hzero
    rw [if_pos hzero] at hmax
    obtain rfl : v = minv := by omega
    rw [u32_of_le_dataTop htop, if_neg (by omega)] at hfind
    exact findSlot_none h hpos hfind hmin hmax htop
  · rename_i hzero
    rw [if_neg hzero] at hmax
    exact findSlot_none h hpos hfind hmin hmax htop

theorem Slot.rangeFree {v : Nat}
    (h : Slot regions minv maxv length v k) : RangeFree regions v length := by
  intro r hr
  rw [← take_append_drop k regions] at hr
  rcases mem_append.mp hr with hr | hr
  · exact .inl (h.before r hr)
  · exact .inr (h.after r hr)

end VmState

/-- The requests that change address spaces. -/
inductive VmRequest where
  | mmap (p : ProcNr) (fd : Int) (flags : BitVec 32) (addr len : Nat)
  | munmap (p : ProcNr) (text : Bool) (addr len : Nat)
  | remap (d src : Option ProcNr) (da sa size : Nat)
  | brk (p : Option ProcNr) (addr sp : Nat)

namespace VmState

def request (s : VmState) (env : Env) : VmRequest → VmState
  | .mmap p fd flags addr len => (s.doMmap env p fd flags addr len).2
  | .munmap p text addr len => (s.doMunmap env p text addr len).2
  | .remap d src da sa size => (s.doRemap env d src da sa size).2
  | .brk p addr sp => (s.doBrk p addr sp).2

/-- The requests after which address spaces are in order. -/
def RequestSafe (s : VmState) (env : Env) : VmRequest → Prop
  | .mmap _ _ _ addr len => addr % pageSize = 0 ∧ 0 < roundUp len
  | .munmap p text addr len =>
      -- The block at the end of what goes can be copied.
      ∀ vr, mapLookup (s.proc p).regions (munmapAddr s p text addr) = some vr →
        roundUp len < vr.length → (s.mapSubfree env p vr (roundUp len)).1 = ok
  | .remap (some d) (some src) da sa size =>
      da % pageSize = 0 ∧ 0 < roundUp size ∧
        ∀ region, mapLookup (s.proc src).regions (archVir2map (s.proc src) sa) = some region →
          (∀ pr ∈ region.phys, pr.offset + (s.block pr.ph).length ≤ roundUp size ∧
            (s.block pr.ph).refcount < 255) ∧
          (s.mapCopyRegion env d region).1 ≠ none
  | .brk (some p) addr _ =>
      -- The heap has not been unmapped, and stays below the top.
      (∀ id, (s.proc p).heap = some id → ∃ r ∈ (s.proc p).regions, r.id = id) ∧
        ∀ r, (s.proc p).regions.getLast? = some r → (s.proc p).heap = some r.id →
          r.vaddr + r.length + brkGrowth s p addr ≤ dataTop
  | _ => True

theorem LayoutOk.request (h : LayoutOk s) {env : Env} {req : VmRequest}
    (hsafe : RequestSafe s env req) (hgo : (s.request env req).halt = none) :
    LayoutOk (s.request env req) := by
  cases req with
  | mmap p fd flags addr len => exact h.doMmap hsafe.1 hsafe.2
  | munmap p text addr len => exact h.doMunmap hsafe hgo
  | remap d src da sa size =>
    revert hgo
    unfold VmState.request doRemap
    cases d with
    | none => exact fun _ => h
    | some d =>
      cases src with
      | none => exact fun _ => h
      | some src =>
        obtain ⟨hda, hsize, hregion⟩ := hsafe
        dsimp only
        split
        · exact fun hgo => absurd hgo (by simp [panic])
        rcases hfind : mapLookup (s.proc src).regions (archVir2map (s.proc src) sa) with _ | region
        · exact fun _ => h
        · obtain ⟨hphys, hcopy⟩ := hregion region hfind
          exact h.mapRemap (mapLookup_mem hfind) hda hsize (fun pr hpr => (hphys pr hpr).1)
            (fun pr hpr => (hphys pr hpr).2) hcopy
  | brk p addr sp =>
    cases p with
    | none => exact h
    | some p => exact h.doBrk hsafe.2

/-- A safe request after which VM goes on. -/
def FollowsSafe (s s' : VmState) : Prop :=
  ∃ env req, RequestSafe s env req ∧ s' = s.request env req ∧ s'.halt = none

/-- A run of safe requests. -/
abbrev ReachesSafe : VmState → VmState → Prop := ReflTransGen FollowsSafe

/-- The layout over whole runs. -/
theorem LayoutOk.reaches (h : LayoutOk s) (hrun : ReachesSafe s s') : LayoutOk s' := by
  induction hrun with
  | refl => exact h
  | tail _ hfollows ih =>
    obtain ⟨env, req, hsafe, rfl, hgo⟩ := hfollows
    exact ih.request hsafe hgo

/-- In every state of a run of safe requests the regions of each process are page aligned,
not empty, in ascending order and apart, below the top, and with their physical regions
inside; and `region_find_slot` finds a free range exactly if there is one. -/
theorem addressSpaces_ordered {s s' : VmState} (hstart : LayoutOk s) (hrun : ReachesSafe s s') (p : ProcNr) :
    AddressSpaceOk s'.block (s'.proc p).regions ∧
      ∀ minv maxv length, minv % pageSize = 0 → 0 < length →
        (∀ v k, regionFindSlot (s'.proc p).regions minv maxv length = some (v, k) →
          v % pageSize = 0 ∧ minv ≤ v ∧ v + length ≤ slotEnd minv maxv length ∧ v + length ≤ dataTop ∧
            RangeFree (s'.proc p).regions v length) ∧
        (regionFindSlot (s'.proc p).regions minv maxv length = none →
          ∀ v, minv ≤ v → v + length ≤ slotEnd minv maxv length → v + length ≤ dataTop →
            ¬ RangeFree (s'.proc p).regions v length) := by
  have hspace := (hstart.reaches hrun).space p
  refine ⟨hspace, ?_⟩
  intro minv maxv length hmin hpos
  refine ⟨?_, ?_⟩
  · intro v k hfind
    have hslot := regionFindSlot_some hspace hfind
    exact ⟨hslot.aligned hmin, hslot.min, hslot.max, hslot.top, hslot.rangeFree⟩
  · intro hfind v hle hend htop
    exact regionFindSlot_none hspace hpos hfind hle hend htop

/-- A VM with processes that have a page table and no regions, and 63 free pages. -/
def emptySpaces : VmState where
  proc _ := ⟨[], none, 0x80000000, 0, 0, 0, 0, 0, 0, false, true, fun _ => none⟩
  block _ := ⟨0, 0, 0, 0, []⟩
  free := Finset.Ico 1 64
  content _ := 0
  live := ∅
  clock := 0
  failed := false
  halt := none

/-- Nothing fails, and objects and pages are new at each point. -/
def willing : Env := ⟨fun _ => false, id, fun n => n + 1, fun _ => 0⟩

theorem emptySpaces_layout : LayoutOk emptySpaces where
  space _ := ⟨by simp [emptySpaces], by simp [emptySpaces]⟩
  unique := by simp [emptySpaces]
  live := by simp [emptySpaces]
  segments _ := by
    have haligned : 0x80000000 % pageSize = 0 ∧ 0 % pageSize = 0 := by decide
    exact haligned
  counted := by
    intro b hb
    simp [holders, regionRefs, emptySpaces] at hb

/-- A process maps two pages with memory, and unmaps the first. -/
def mappedTwo : VmState := emptySpaces.request willing (.mmap 0 (-1) (mapAnon ||| mapPrealloc) 0 8192)
def unmappedOne : VmState := mappedTwo.request willing (.munmap 0 false 0x80000000 4096)

theorem addressSpaces_ordered_unmappedOne :
    ReachesSafe emptySpaces unmappedOne ∧
      ((unmappedOne.proc 0).regions.map fun r => (r.vaddr, r.length, r.phys.map (·.offset)))
        = [(0x80001000, 4096, [0])] ∧
      AddressSpaceOk unmappedOne.block (unmappedOne.proc 0).regions := by
  have hmmap : RequestSafe emptySpaces willing (.mmap 0 (-1) (mapAnon ||| mapPrealloc) 0 8192) :=
    ⟨by decide, by decide⟩
  have hmunmap : RequestSafe mappedTwo willing (.munmap 0 false 0x80000000 4096) := by
    intro vr hfind _
    have hregion : mapLookup (mappedTwo.proc 0).regions (munmapAddr mappedTwo 0 false 0x80000000)
        = some ⟨0, 1, 0x80000000, 8192, [⟨2, 3, 0⟩], vrAnon ||| vrWritable, .none⟩ := by decide +kernel
    obtain rfl := Option.some.inj (hregion.symm.trans hfind)
    decide +kernel
  have hrun : ReachesSafe emptySpaces unmappedOne :=
    (ReflTransGen.single ⟨willing, .mmap 0 (-1) (mapAnon ||| mapPrealloc) 0 8192, hmmap, rfl,
      by decide +kernel⟩).tail ⟨willing, _, hmunmap, rfl, by decide +kernel⟩
  exact ⟨hrun, by decide +kernel, (addressSpaces_ordered emptySpaces_layout hrun 0).1⟩

/-- In every state of a run of safe requests the reference count of a block is the number of
physical regions for it. -/
theorem blocks_counted {s s' : VmState} (hstart : LayoutOk s) (hrun : ReachesSafe s s') {p : ProcNr}
    {r : VirRegion} (hr : r ∈ (s'.proc p).regions) {pr : PhysRegion} (hpr : pr ∈ r.phys) :
    (Kind.physBlock, pr.ph) ∈ s'.live ∧ (s'.block pr.ph).refcount = holders s' pr.ph ∧
      holders s' pr.ph < 256 :=
  (hstart.reaches hrun).counted pr.ph (holders_pos hr hpr)

theorem blocks_counted_mappedTwo : (mappedTwo.block 3).refcount = holders mappedTwo 3 := by
  have hrun : ReachesSafe emptySpaces mappedTwo := .single
    ⟨willing, .mmap 0 (-1) (mapAnon ||| mapPrealloc) 0 8192, ⟨by decide, by decide⟩, rfl, by decide +kernel⟩
  have hr : ⟨0, 1, 0x80000000, 8192, [⟨2, 3, 0⟩], vrAnon ||| vrWritable, .none⟩ ∈ (mappedTwo.proc 0).regions := by
    decide +kernel
  exact (blocks_counted emptySpaces_layout hrun hr (List.mem_singleton_self _)).2.1

/-- Two requests for 0 bytes succeed, and make two empty regions at one address. -/
theorem mmap_emptyRegions :
    (emptySpaces.doMmap willing 0 (-1) mapAnon 0 0).1 = ok ∧
      ((emptySpaces.doMmap willing 0 (-1) mapAnon 0 0).2.doMmap willing 0 (-1) mapAnon 0 0).1 = ok ∧
      (((((emptySpaces.doMmap willing 0 (-1) mapAnon 0 0).2.doMmap willing 0 (-1) mapAnon 0 0).2.proc
        0).regions.map fun r => (r.vaddr, r.length)) = [(0x80000000, 0), (0x80000000, 0)]) := by
  decide +kernel

end VmState

end Minix.Vm
