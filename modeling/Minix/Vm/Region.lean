/-
  Vm/Region.lean --- the address spaces of processes: `region.c`.

  A process has a list of virtual regions.  A region has physical regions, in the order of
  their offsets (an AVL tree in the source); each of them refers to a block of physical
  memory, which counts how many refer to it.  Forked processes share blocks until one of
  them writes.

  Addresses and lengths are in bytes and frames in pages.  What the rest of VM decides is in
  an environment: which allocations fail, and which objects and pages the others return.
  Page tables are maps from pages to frames.  The pages that VM needs for itself are not part
  of the memory here.
-/
import Mathlib.Data.Finset.Basic
import Mathlib.Order.Interval.Finset.Nat
import Minix.Foundation.FlagWord

set_option autoImplicit false

namespace Minix.Vm

open Minix.Foundation

/-! ## Constants -/

def ok : Int := 0
def enomem : Int := -12
def efault : Int := -14
def einval : Int := -22
def enxio : Int := -6
def enosys : Int := -71

def pageSize : Nat := 4096

/-- `VM_DATATOP` -/
def dataTop : Nat := 0xFFFFF000

/-- What a `vir_bytes` holds of a number. -/
def u32 (n : Nat) : Nat := n % 2 ^ 32

/-- `if(len % VM_PAGE_SIZE) len += VM_PAGE_SIZE - (len % VM_PAGE_SIZE)` -/
def roundUp (len : Nat) : Nat :=
  if len % pageSize ≠ 0 then u32 (len + (pageSize - len % pageSize)) else len

def vrWritable : BitVec 16 := 0x001#16
def vrNopf : BitVec 16 := 0x002#16
def vrPhys64k : BitVec 16 := 0x004#16
def vrLower16mb : BitVec 16 := 0x008#16
def vrLower1mb : BitVec 16 := 0x010#16
def vrShared : BitVec 16 := 0x040#16
def vrAnon : BitVec 16 := 0x100#16
def vrDirect : BitVec 16 := 0x200#16

/-- The values of `share_flag`. -/
def pbshCow : BitVec 8 := 1#8
def pbshSmap : BitVec 8 := 2#8

/-! ## State -/

/-- `phys_block`; `refs` is the list that starts at `firstregion`. -/
structure PhysBlock where
  length : Nat
  phys : Nat
  refcount : Nat
  shareFlag : BitVec 8
  refs : List Nat
  deriving DecidableEq, Repr

/-- `phys_region` -/
structure PhysRegion where
  id : Nat
  ph : Nat
  offset : Nat
  deriving DecidableEq, Repr

/-- `tag` -/
inductive RegionTag where
  | none
  | heap
  | code
  deriving DecidableEq, Repr

/-- `vir_region`; `phys` has the physical regions in ascending order, and `avl` is the slab
object of their tree. -/
structure VirRegion where
  id : Nat
  avl : Nat
  vaddr : Nat
  length : Nat
  phys : List PhysRegion
  flags : BitVec 16
  tag : RegionTag
  deriving DecidableEq, Repr

namespace VirRegion

def has (r : VirRegion) (f : BitVec 16) : Bool := r.flags &&& f != 0#16

end VirRegion

/-- A page table entry that is present. -/
structure Pte where
  frame : Nat
  write : Bool
  deriving DecidableEq, Repr

/-- The part of `vmproc` that the address space is made of.  The segments are in clicks;
`dataPhys` and `textPhys` are the places of the segments in the page table, in bytes. -/
structure VmProc where
  regions : List VirRegion
  heap : Option Nat
  stacktop : Nat
  textPhys : Nat
  dataPhys : Nat
  dataVir : Nat
  dataLen : Nat
  stackVir : Nat
  stackLen : Nat
  isVm : Bool
  hasPt : Bool
  pt : Nat → Option Pte

/-- The slots of `vmproc`. -/
abbrev ProcNr := Fin 258

/-- The types of slab objects. -/
inductive Kind where
  | virRegion
  | physAvl
  | physRegion
  | physBlock
  deriving DecidableEq, Repr

/-- How VM has stopped: by a panic, or by the use of an object that is not there any more. -/
inductive VmHalt where
  | panic
  | dangling
  deriving DecidableEq, Repr

/-- What is decided elsewhere, for each point at which something is allocated or written:
whether it fails, the slab object, the first of the pages, what is in a new block. -/
structure Env where
  fails : Nat → Bool
  object : Nat → Nat
  base : Nat → Nat
  garbage : Nat → BitVec 8

/-- VM.  `content` is what is in the pages; `live` are the slab objects in use; `clock`
counts the points at which something can fail, and `failed` says whether something has. -/
structure VmState where
  proc : ProcNr → VmProc
  block : Nat → PhysBlock
  free : Finset Nat
  content : Nat → Nat
  live : Finset (Kind × Nat)
  clock : Nat
  failed : Bool
  halt : Option VmHalt

namespace VmState

/-! ## Allocation and page tables -/

def tick (s : VmState) : VmState := { s with clock := s.clock + 1 }

/-- Something fails. -/
def fail (s : VmState) : VmState := { s with failed := true }

def panic (s : VmState) : VmState := { s with halt := some .panic }

def setBlock (s : VmState) (b : Nat) (pb : PhysBlock) : VmState :=
  { s with block := Function.update s.block b pb }

def setProc (s : VmState) (p : ProcNr) (vmp : VmProc) : VmState :=
  { s with proc := Function.update s.proc p vmp }

def setRegions (s : VmState) (p : ProcNr) (regions : List VirRegion) : VmState :=
  s.setProc p { s.proc p with regions := regions }

/-- A slab object comes into use. -/
def takeObject (s : VmState) (kind : Kind) (id : Nat) : VmState :=
  { s.tick with live := insert (kind, id) s.live }

/-- `SLABALLOC` -/
def slabAlloc (s : VmState) (env : Env) (kind : Kind) : Option Nat × VmState :=
  if env.fails s.clock = true ∨ (kind, env.object s.clock) ∈ s.live then (none, s.tick.fail)
  else (some (env.object s.clock), s.takeObject kind (env.object s.clock))

/-- `SLABFREE` -/
def slabFree (s : VmState) (kind : Kind) (id : Nat) : VmState :=
  { s with live := s.live.erase (kind, id) }

/-- The pages from `mem` to `last` are taken; those from `base` on are cleared if `clear` says
so. -/
def takeMem (s : VmState) (base mem last : Nat) (clear : Bool) : VmState :=
  { s.tick with
    free := s.free \ Finset.Ico mem last
    content := fun x => if clear ∧ base ≤ x ∧ x < last then 0 else s.content x }

/-- `ALLOC_MEM`.  For memory aligned to 64 kB, 16 pages more are taken and those below the
aligned address given back. -/
def allocMem (s : VmState) (env : Env) (clicks : Nat) (align clear : Bool) : Option Nat × VmState :=
  let base := env.base s.clock
  let want := if align then clicks + 16 else clicks
  if env.fails s.clock = true ∨ base = 0 ∨ ¬ Finset.Ico base (base + want) ⊆ s.free then
    (none, s.tick.fail)
  else
    let mem := if align then base + (16 - base % 16) % 16 else base
    (some mem, s.takeMem base mem (base + want) clear)

/-- `FREE_MEM` -/
def freeMem (s : VmState) (base clicks : Nat) : VmState :=
  { s with free := s.free ∪ Finset.Ico base (base + clicks) }

/-- `pt_writemap(&vmp->vm_pt, v, ...)`: the entries from `v` on for `bytes` bytes become
present, with frames from `phys` on, or are cleared. -/
def ptWritemap (s : VmState) (env : Env) (p : ProcNr) (v bytes : Nat) (entry : Option (Nat × Bool)) :
    Bool × VmState :=
  if env.fails s.clock = true then (false, s.tick.fail)
  else
    let first := v / pageSize
    let pt := fun x =>
      if first ≤ x ∧ x < first + bytes / pageSize then
        entry.map fun e => ⟨e.1 / pageSize + (x - first), e.2⟩
      else (s.proc p).pt x
    (true, s.tick.setProc p { s.proc p with pt := pt })

/-- `WRITABLE(r, pb)` -/
def writable (r : VirRegion) (pb : PhysBlock) : Bool :=
  r.has (vrDirect ||| vrShared) || (r.has vrWritable && pb.refcount == 1)

/-- `map_ph_writept(vmp, vr, pr)` -/
def mapPhWritept (s : VmState) (env : Env) (p : ProcNr) (r : VirRegion) (pr : PhysRegion) :
    Bool × VmState :=
  s.ptWritemap env p (r.vaddr + pr.offset) (s.block pr.ph).length
    (some ((s.block pr.ph).phys, writable r (s.block pr.ph)))

/-! ## Places for regions -/

/-- `FREEVRANGE` -/
def freeVrange (minv maxv length rangestart rangeend : Nat) : Option Nat :=
  let frstart := max rangestart minv
  let frend := min rangeend maxv
  if frstart < frend ∧ length ≤ frend - frstart then some frstart else none

/-- Where the free range before these regions ends. -/
def gapEnd : List VirRegion → Nat
  | [] => dataTop
  | next :: _ => next.vaddr

/-- The loop of `region_find_slot` over the regions from the `k`th on: the address, and how
many regions are before it. -/
def findAfter (minv maxv length : Nat) : List VirRegion → Nat → Option (Nat × Nat)
  | [], _ => none
  | vr :: rest, k =>
      match freeVrange minv maxv length (u32 (vr.vaddr + vr.length)) (gapEnd rest) with
      | some v => some (v, k + 1)
      | none => findAfter minv maxv length rest (k + 1)

/-- `region_find_slot` with `minv < maxv` settled. -/
def findSlot (regions : List VirRegion) (minv maxv length : Nat) : Option (Nat × Nat) :=
  match freeVrange minv maxv length 0 (gapEnd regions) with
  | some v => some (v, 0)
  | none => findAfter minv maxv length regions 0

/-- `region_find_slot(vmp, minv, maxv, length, &prev)`: the address, and how many regions
there are before it. -/
def regionFindSlot (regions : List VirRegion) (minv maxv length : Nat) : Option (Nat × Nat) :=
  if maxv = 0 then
    if u32 (minv + length) ≤ minv then none else findSlot regions minv (u32 (minv + length)) length
  else findSlot regions minv maxv length

/-- A region is linked after the first `k` ones. -/
def linkAt (regions : List VirRegion) (k : Nat) (r : VirRegion) : List VirRegion :=
  regions.take k ++ r :: regions.drop k

/-- `map_lookup`; the caller has seen that there are regions. -/
def mapLookup (regions : List VirRegion) (offset : Nat) : Option VirRegion :=
  regions.find? fun r => r.vaddr ≤ offset ∧ offset < u32 (r.vaddr + r.length)

/-- `physr_insert` -/
def physrInsert (l : List PhysRegion) (pr : PhysRegion) : List PhysRegion :=
  l.takeWhile (fun x => x.offset < pr.offset) ++ pr :: l.dropWhile fun x => x.offset < pr.offset

/-! ## References -/

/-- `pb_unreferenced(region, pr)` -/
def pbUnreferenced (s : VmState) (r : VirRegion) (pr : PhysRegion) : VmState :=
  let pb := s.block pr.ph
  let refcount := (pb.refcount + 255) % 256
  let s1 := s.setBlock pr.ph { pb with refcount := refcount, refs := pb.refs.erase pr.id }
  if refcount = 0 then
    let s2 :=
      if r.has vrAnon then s1.freeMem (pb.phys / pageSize) (pb.length / pageSize)
      else if r.has vrDirect then s1
      else s1.panic
    s2.slabFree .physBlock pr.ph
  else s1

/-- The memory of a new block: what is given, or pages that are allocated and cleared. -/
def blockMem (s : VmState) (env : Env) (r : VirRegion) (clicks : Nat) :
    Option Nat → Option Nat × VmState
  | some mem => (some mem, s)
  | none =>
      match s.allocMem env clicks (r.has vrPhys64k) true with
      | (none, s1) => (none, s1)
      | (some page, s1) => (some (page * pageSize), s1)

/-- `map_new_physblock(vmp, region, offset, length, what_mem)`: the region with the new
physical region, and that. -/
def mapNewPhysblock (s : VmState) (env : Env) (p : ProcNr) (r : VirRegion) (offset length : Nat)
    (what : Option Nat) : Option (VirRegion × PhysRegion) × VmState :=
  match s.slabAlloc env .physRegion with
  | (none, s1) => (none, s1)
  | (some newphysr, s1) =>
      match s1.slabAlloc env .physBlock with
      | (none, s2) => (none, s2.slabFree .physRegion newphysr)
      | (some newpb, s2) =>
          let clicks := length / pageSize
          match s2.blockMem env r clicks what with
          | (none, s3) => (none, (s3.slabFree .physBlock newpb).slabFree .physRegion newphysr)
          | (some mem, s3) =>
              let s4 := s3.setBlock newpb ⟨length, mem, 1, env.garbage s3.clock, [newphysr]⟩
              let pr : PhysRegion := ⟨newphysr, newpb, offset⟩
              match s4.mapPhWritept env p r pr with
              | (false, s5) =>
                  let s6 := if what = none then s5.freeMem (mem / pageSize) clicks else s5
                  (none, (s6.slabFree .physBlock newpb).slabFree .physRegion newphysr)
              | (true, s5) => (some ({ r with phys := physrInsert r.phys pr }, pr), s5)

/-- `sys_abscopy`, in pages, when it succeeds. -/
def absCopy (s : VmState) (src dst clicks : Nat) : VmState :=
  { s.tick with
    content := fun x => if dst ≤ x ∧ x < dst + clicks then s.content (src + (x - dst)) else s.content x }

/-- `map_copy_ph_block(vmp, region, ph)`: the result, the physical region and the state. -/
def mapCopyPhBlock (s : VmState) (env : Env) (p : ProcNr) (r : VirRegion) (ph : PhysRegion) :
    Int × PhysRegion × VmState :=
  match s.slabAlloc env .physBlock with
  | (none, s1) => (enomem, ph, s1)
  | (some newpb, s1) =>
      let length := (s1.block ph.ph).length
      let clicks := length / pageSize
      match s1.allocMem env clicks (r.has vrPhys64k) false with
      | (none, s2) => (enomem, ph, s2.slabFree .physBlock newpb)
      | (some page, s2) =>
          let phys := (s2.block ph.ph).phys
          let s3 := s2.pbUnreferenced r ph
          let s4 := s3.setBlock newpb ⟨length, page * pageSize, 1, env.garbage s3.clock, [ph.id]⟩
          if env.fails s4.clock = true then (efault, ph, s4.tick.fail)
          else
            let s5 := s4.absCopy (phys / pageSize) page clicks
            let ph' : PhysRegion := { ph with ph := newpb }
            match s5.mapPhWritept env p r ph' with
            | (false, s6) => (enomem, ph', s6.panic)
            | (true, s6) => (ok, ph', s6)

/-- `map_subfree(vmp, region, len)` on the physical regions that are left to look at: the
result, the physical regions that stay, and the state. -/
def subfree (env : Env) (p : ProcNr) (r : VirRegion) (len : Nat) :
    List PhysRegion → VmState → Int × List PhysRegion × VmState
  | [], s => (ok, [], s)
  | pr :: rest, s =>
      if len ≤ pr.offset then (ok, pr :: rest, s)
      else if pr.offset + (s.block pr.ph).length ≤ len then
        subfree env p r len rest ((s.pbUnreferenced r pr).slabFree .physRegion pr.id)
      else
        let sublen := len - pr.offset
        let copied :=
          if 1 < (s.block pr.ph).refcount then s.mapCopyPhBlock env p r pr else (ok, pr, s)
        if copied.1 ≠ ok then (copied.1, copied.2.1 :: rest, copied.2.2)
        else
          let pr1 := copied.2.1
          let s1 := copied.2.2
          let pb := s1.block pr1.ph
          let s2 := if r.has vrDirect then s1 else s1.freeMem (pb.phys / pageSize) (sublen / pageSize)
          let s3 := s2.setBlock pr1.ph { pb with phys := pb.phys + sublen, length := pb.length - sublen }
          let (res, rest', s4) := subfree env p r len rest s3
          (res, { pr1 with offset := pr1.offset + sublen } :: rest', s4)

/-- `map_subfree(vmp, region, len)`: the result, the region and the state. -/
def mapSubfree (s : VmState) (env : Env) (p : ProcNr) (r : VirRegion) (len : Nat) :
    Int × VirRegion × VmState :=
  let (res, phys, s1) := subfree env p r len r.phys s
  (res, { r with phys := phys }, s1)

/-- `map_free(vmp, region)` -/
def mapFree (s : VmState) (env : Env) (p : ProcNr) (r : VirRegion) : Int × VmState :=
  let (res, _, s1) := s.mapSubfree env p r r.length
  if res ≠ ok then (res, s1)
  else (ok, (s1.slabFree .physAvl r.avl).slabFree .virRegion r.id)

/-- `map_free_proc(vmp)` -/
def mapFreeProc (s : VmState) (env : Env) (p : ProcNr) : VmState :=
  let s1 := (s.proc p).regions.foldl (fun t r => (t.mapFree env p r).2) s
  s1.setRegions p []

/-- `free_proc(vmp)`: the page table goes first. -/
def freeProc (s : VmState) (env : Env) (p : ProcNr) : VmState :=
  (s.setProc p { s.proc p with hasPt := false, pt := fun _ => none }).mapFreeProc env p

/-! ## Page faults -/

/-- `FREE_RANGE_HERE(r1, r2)` of `map_handle_memory`: whether it goes on, the region, whether
something has changed, and the state. -/
def freeRangeHere (s : VmState) (env : Env) (p : ProcNr) (r : VirRegion) (offset length : Nat)
    (r1 r2 : Option PhysRegion) : Bool × VirRegion × Bool × VmState :=
  let start := match r1 with
    | some x => max offset (x.offset + (s.block x.ph).length)
    | none => offset
  let last := match r2 with
    | some x => min (offset + length) x.offset
    | none => offset + length
  if start < last then
    match s.mapNewPhysblock env p r start (last - start) none with
    | (none, s1) => (false, r, false, s1)
    | (some (r', _), s1) => (true, r', true, s1)
  else (true, r, false, s)

/-- The physical region in the region is replaced by one with the same offset. -/
def replacePhys (r : VirRegion) (pr : PhysRegion) : VirRegion :=
  { r with phys := r.phys.map fun x => if x.offset = pr.offset then pr else x }

/-- The loop of `map_handle_memory`, over the physical regions that were there from the
first one on: the result, the region, whether something has changed, and the state. -/
def handleLoop (env : Env) (p : ProcNr) (offset length : Nat) (write : Bool) :
    List PhysRegion → VirRegion → Bool → VmState → Int × VirRegion × Bool × VmState
  | [], r, changes, s => (ok, r, changes, s)
  | physr :: rest, r, changes, s =>
      let handled :=
        if write then
          if writable r (s.block physr.ph) then
            match s.mapPhWritept env p r physr with
            | (false, s1) => (enomem, r, physr, s1)
            | (true, s1) => (ok, r, physr, s1)
          else
            match s.mapCopyPhBlock env p r physr with
            | (res, ph, s1) => (res, replacePhys r ph, ph, s1)
        else (ok, r, physr, s)
      if handled.1 ≠ ok then (handled.1, handled.2.1, changes, handled.2.2.2)
      else
        let changes1 := changes || write
        match handled.2.2.2.freeRangeHere env p handled.2.1 offset length (some handled.2.2.1) rest.head? with
        | (false, r2, _, s2) => (enomem, r2, changes1, s2)
        | (true, r2, changed, s2) =>
            match rest with
            | [] => (ok, r2, changes1 || changed, s2)
            | next :: _ =>
                if offset + length ≤ next.offset then (ok, r2, changes1 || changed, s2)
                else handleLoop env p offset length write rest r2 (changes1 || changed) s2

/-- The physical regions from the one on at which `map_handle_memory` starts: the last at or
below the offset, or else the first above it. -/
def startPhys (l : List PhysRegion) (offset : Nat) : List PhysRegion :=
  match l.filter fun x => x.offset ≤ offset with
  | [] => l
  | below => l.drop (below.length - 1)

/-- `map_handle_memory(vmp, region, offset, length, write)` -/
def mapHandleMemory (s : VmState) (env : Env) (p : ProcNr) (r : VirRegion) (offset length : Nat)
    (write : Bool) : Int × VirRegion × VmState :=
  let todo := startPhys r.phys offset
  match s.freeRangeHere env p r offset length none todo.head? with
  | (false, r1, _, s1) => (enomem, r1, s1)
  | (true, r1, changed, s1) =>
      let skips := match todo with
        | [] => false
        | physr :: _ => physr.offset + (s1.block physr.ph).length ≤ offset
      let second :=
        if skips then
          match s1.freeRangeHere env p r1 offset length none todo.tail.head? with
          | (go, r2, changed2, s2) => (go, todo.tail, r2, changed || changed2, s2)
        else (true, todo, r1, changed, s1)
      if second.1 = false then (enomem, second.2.2.1, second.2.2.2.2)
      else
        let (res, r3, changes, s3) :=
          handleLoop env p offset length write second.2.1 second.2.2.1 second.2.2.2.1 second.2.2.2.2
        if res ≠ ok then (res, r3, s3)
        else if changes then (ok, r3, s3)
        else (efault, r3, s3)

/-- `map_pf(vmp, region, offset, write)` -/
def mapPf (s : VmState) (env : Env) (p : ProcNr) (r : VirRegion) (offset : Nat) :
    Int × VirRegion × VmState :=
  let virpage := offset - offset % pageSize
  let inNew :=
    match s.mapNewPhysblock env p r virpage pageSize none with
    | (none, s1) => (enomem, r, s1)
    | (some (r', _), s1) => (ok, r', s1)
  match (r.phys.filter fun x => x.offset ≤ offset).getLast? with
  | none => inNew
  | some ph =>
      if offset < ph.offset + (s.block ph.ph).length then
        if writable r (s.block ph.ph) then
          match s.mapPhWritept env p r ph with
          | (false, s1) => (enomem, r, s1)
          | (true, s1) => (ok, r, s1)
        else if 0 < (s.block ph.ph).refcount ∧ (s.block ph.ph).shareFlag ≠ pbshCow then (efault, r, s)
        else
          match s.mapCopyPhBlock env p r ph with
          | (res, ph', s1) => (res, replacePhys r ph', s1)
      else inNew

/-! ## New regions -/

/-- `map_page_region(vmp, minv, maxv, length, what, flags, mapflags)`; `prealloc` is
MF_PREALLOC.  The region, if it has been made, and the state. -/
def mapPageRegion (s : VmState) (env : Env) (p : ProcNr) (minv maxv length : Nat) (what : Option Nat)
    (flags : BitVec 16) (prealloc : Bool) : Option VirRegion × VmState :=
  match regionFindSlot (s.proc p).regions minv maxv length with
  | none => (none, s)
  | some (startv, k) =>
      match s.slabAlloc env .virRegion with
      | (none, s1) => (none, s1)
      | (some id, s1) =>
          match s1.slabAlloc env .physAvl with
          | (none, s2) => (none, s2.slabFree .virRegion id)
          | (some avl, s2) =>
              let newregion : VirRegion := ⟨id, avl, startv, length, [], flags, .none⟩
              let undo := fun (t : VmState) => (t.slabFree .physAvl avl).slabFree .virRegion id
              let mapped : Option VirRegion × VmState :=
                match what with
                | none => (some newregion, s2)
                | some mem =>
                    match s2.mapNewPhysblock env p newregion 0 length (some mem) with
                    | (none, s3) => (none, undo s3)
                    | (some (r1, pr), s3) =>
                        match s3.mapPhWritept env p r1 pr with
                        | (false, s4) => (none, s4.slabFree .virRegion id)
                        | (true, s4) => (some r1, s4)
              match mapped with
              | (none, s3) => (none, s3)
              | (some r1, s3) =>
                  let filled : Option VirRegion × VmState :=
                    if r1.has vrAnon && prealloc then
                      match s3.mapHandleMemory env p r1 0 length true with
                      | (res, r2, s4) => if res ≠ ok then (none, undo s4) else (some r2, s4)
                    else (some r1, s3)
                  match filled with
                  | (none, s4) => (none, s4)
                  | (some r2, s4) =>
                      (some r2, s4.setRegions p (linkAt (s4.proc p).regions k r2))

/-! ## Copies of regions -/

/-- The loop of `map_copy_region`: new physical regions with the same blocks and offsets.
The new ones so far are returned also when there is no object for the next. -/
def copyPhys (env : Env) : List PhysRegion → VmState → Bool × List PhysRegion × VmState
  | [], s => (true, [], s)
  | ph :: rest, s =>
      match s.slabAlloc env .physRegion with
      | (none, s1) => (false, [], s1)
      | (some id, s1) =>
          let (done, copies, s2) := copyPhys env rest s1
          (done, ⟨id, ph.ph, ph.offset⟩ :: copies, s2)

/-- `map_copy_region(vmp, vr)`: a copy of the region that is not linked, and does not count
as a reference to the blocks. -/
def mapCopyRegion (s : VmState) (env : Env) (p : ProcNr) (vr : VirRegion) : Option VirRegion × VmState :=
  match s.slabAlloc env .virRegion with
  | (none, s1) => (none, s1)
  | (some id, s1) =>
      match s1.slabAlloc env .physAvl with
      | (none, s2) => (none, s2.slabFree .virRegion id)
      | (some avl, s2) =>
          let (done, copies, s3) := copyPhys env vr.phys s2
          let newvr : VirRegion := { vr with id := id, avl := avl, phys := copies }
          if done then (some newvr, s3) else (none, (s3.mapFree env p newvr).2)

/-- `map_writept(vmp)` for the physical regions of one region. -/
def writeptPhys (env : Env) (p : ProcNr) (vr : VirRegion) : List PhysRegion → VmState → Bool × VmState
  | [], s => (true, s)
  | ph :: rest, s =>
      if 1 < (s.block ph.ph).refcount ∧ (s.block ph.ph).shareFlag = pbshSmap then
        writeptPhys env p vr rest s
      else
        match s.mapPhWritept env p vr ph with
        | (false, s1) => (false, s1)
        | (true, s1) => writeptPhys env p vr rest s1

def writeptRegions (env : Env) (p : ProcNr) : List VirRegion → VmState → Bool × VmState
  | [], s => (true, s)
  | vr :: rest, s =>
      match writeptPhys env p vr vr.phys s with
      | (false, s1) => (false, s1)
      | (true, s1) => writeptRegions env p rest s1

/-- `map_writept(vmp)` -/
def mapWritept (s : VmState) (env : Env) (p : ProcNr) : Bool × VmState :=
  writeptRegions env p (s.proc p).regions s

/-- The loop of `map_proc_copy` over the physical regions of a region: the new ones are
linked to their blocks. -/
def linkPhys (env : Env) (dst : ProcNr) (newvr : VirRegion) :
    List PhysRegion → VmState → List PhysRegion × VmState
  | [], s => ([], s)
  | newPh :: rest, s =>
      let pb := s.block newPh.ph
      let pb1 := { pb with refs := newPh.id :: pb.refs, refcount := (pb.refcount + 1) % 256 }
      let s1 := s.setBlock newPh.ph pb1
      let shared :=
        if 2 < pb1.refcount ∧ pb1.shareFlag = pbshSmap then
          match s1.mapCopyPhBlock env dst newvr newPh with
          | (_, ph, s2) => (ph, s2)
        else (newPh, s1.setBlock newPh.ph { pb1 with shareFlag := pbshCow })
      let (rest', s3) := linkPhys env dst newvr rest shared.2
      (shared.1 :: rest', s3)

/-- The loop of `map_proc_copy` over the regions of the parent.  The regions of the child
are linked one by one. -/
def copyRegions (env : Env) (dst : ProcNr) : List VirRegion → VmState → Bool × VmState
  | [], s => (true, s)
  | vr :: rest, s =>
      match s.mapCopyRegion env dst vr with
      | (none, s1) => (false, s1.mapFreeProc env dst)
      | (some newvr, s1) =>
          let (phys, s2) := linkPhys env dst newvr newvr.phys s1
          copyRegions env dst rest
            (s2.setRegions dst ((s2.proc dst).regions ++ [{ newvr with phys := phys }]))

/-- `map_proc_copy(dst, src)` -/
def mapProcCopy (s : VmState) (env : Env) (dst src : ProcNr) : Int × VmState :=
  match copyRegions env dst (s.proc src).regions (s.setRegions dst []) with
  | (false, s1) => (enomem, s1)
  | (true, s1) => (ok, ((s1.mapWritept env src).2.mapWritept env dst).2)

/-! ## Changes of regions -/

/-- `map_region_extend(vmp, vr, delta)` for the region with number `id`: the result and the
regions. -/
def extendIn (id delta : Nat) : List VirRegion → Option (Int × List VirRegion)
  | [] => none
  | vr :: rest =>
      if vr.id = id then
        let last := u32 (vr.vaddr + vr.length)
        let room := match rest with
          | [] => true
          | next :: _ => decide (u32 (last + delta) ≤ next.vaddr)
        if delta = 0 then some (ok, vr :: rest)
        else if u32 (last + delta) ≤ last then some (enomem, vr :: rest)
        else if room then some (ok, { vr with length := u32 (vr.length + delta) } :: rest)
        else some (enomem, vr :: rest)
      else (extendIn id delta rest).map fun (res, l) => (res, vr :: l)

/-- `map_region_extend(vmp, vr, delta)`.  The pointer to a region that has been freed is
used all the same. -/
def mapRegionExtend (s : VmState) (p : ProcNr) (id delta : Nat) : Int × VmState :=
  match extendIn id delta (s.proc p).regions with
  | none => (ok, { s with halt := some .dangling })
  | some (res, regions) => (res, s.setRegions p regions)

/-- What is left of a region when `len` bytes have gone from its start. -/
def shrinkRegion (r : VirRegion) (len : Nat) : VirRegion :=
  { r with
    vaddr := u32 (r.vaddr + len)
    length := r.length - len
    phys := r.phys.map fun pr => { pr with offset := u32 (pr.offset + (2 ^ 32 - len)) } }

/-- `map_unmap_region(vmp, region, len)`; the region is one of the process. -/
def mapUnmapRegion (s : VmState) (env : Env) (p : ProcNr) (r : VirRegion) (len : Nat) : Int × VmState :=
  if r.length < len ∨ len % pageSize ≠ 0 then (einval, s)
  else if !r.has (vrAnon ||| vrDirect) then (einval, s)
  else
    let s1 :=
      if len = r.length then
        let s0 := s.setRegions p ((s.proc p).regions.filter fun x => x.id ≠ r.id)
        (s0.mapFree env p r).2
      else
        let (_, r1, s0) := s.mapSubfree env p r len
        s0.setRegions p ((s0.proc p).regions.map fun x => if x.id = r.id then shrinkRegion r1 len else x)
    match s1.ptWritemap env p r.vaddr len none with
    | (false, s2) => (enomem, s2)
    | (true, s2) => (ok, s2)

/-- The loop of `map_remap`: the references are counted, but not put on the lists. -/
def remapPhys (env : Env) (p : ProcNr) (vr : VirRegion) : List PhysRegion → VmState → VmState
  | [], s => s
  | ph :: rest, s =>
      let pb := s.block ph.ph
      let s1 := s.setBlock ph.ph { pb with refcount := (pb.refcount + 1) % 256 }
      match s1.mapPhWritept env p vr ph with
      | (false, s2) => s2.panic
      | (true, s2) => remapPhys env p vr rest s2

/-- `arch_vir2map` and `arch_vir2map_text` -/
def archVir2map (vmp : VmProc) (addr : Nat) : Nat := u32 (addr + vmp.dataPhys)
def archVir2mapText (vmp : VmProc) (addr : Nat) : Nat := u32 (addr + vmp.textPhys)

/-- `map_remap(dvmp, da, size, region, &startv)` -/
def mapRemap (s : VmState) (env : Env) (d : ProcNr) (da size : Nat) (region : VirRegion) : Int × VmState :=
  let dstAddr := archVir2map (s.proc d) (if da = 0 then (s.proc d).stacktop else da)
  let length := roundUp size
  match regionFindSlot (s.proc d).regions dstAddr dataTop length with
  | none => (enomem, s)
  | some (startv, k) =>
      if da ≠ 0 ∧ startv ≠ dstAddr then (einval, s)
      else
        match s.mapCopyRegion env d region with
        | (none, s1) => (enomem, s1)
        | (some copy, s1) =>
            let vr : VirRegion := { copy with vaddr := startv, length := length, tag := .none }
            let s2 := s1.setRegions d (linkAt (s1.proc d).regions k vr)
            (ok, remapPhys env d vr vr.phys s2)

/-! ## Requests -/

def mapShared : BitVec 32 := 0x01#32
def mapAnon : BitVec 32 := 0x04#32
def mapPrealloc : BitVec 32 := 0x08#32
def mapLower16m : BitVec 32 := 0x20#32
def mapAlign64k : BitVec 32 := 0x40#32
def mapLower1m : BitVec 32 := 0x80#32

/-- The flags of the region for the flags of `mmap`. -/
def regionFlags (flags : BitVec 32) : BitVec 16 :=
  let add := fun (m : BitVec 32) (f acc : BitVec 16) => if flags &&& m ≠ 0#32 then acc ||| f else acc
  add mapShared vrShared <| add mapAlign64k vrPhys64k <| add mapLower1m vrLower1mb <|
    add mapLower16m vrLower16mb (vrAnon ||| vrWritable)

/-- `do_mmap` for a message of the process `p` -/
def doMmap (s : VmState) (env : Env) (p : ProcNr) (fd : Int) (flags : BitVec 32) (addr len : Nat) :
    Int × VmState :=
  if !(s.proc p).hasPt then (enxio, s)
  else if fd = -1 ∨ flags &&& mapAnon ≠ 0#32 then
    if fd ≠ -1 then (einval, s)
    else
      let minv := archVir2map (s.proc p) (if addr ≠ 0 then addr else (s.proc p).stacktop)
      match s.mapPageRegion env p minv dataTop (roundUp len) none (regionFlags flags)
          (flags &&& mapPrealloc != 0#32) with
      | (none, s1) => (enomem, s1)
      | (some _, s1) => (ok, s1)
  else (enosys, s)

/-- `do_munmap` for a message of the process `p`; `text` is VM_MUNMAP_TEXT. -/
def doMunmap (s : VmState) (env : Env) (p : ProcNr) (text : Bool) (addr len : Nat) : Int × VmState :=
  if !(s.proc p).hasPt then (enxio, s)
  else if (s.proc p).regions = [] then (ok, s.panic)
  else
    let v := if text then archVir2mapText (s.proc p) addr else archVir2map (s.proc p) addr
    match mapLookup (s.proc p).regions v with
    | none => (efault, s)
    | some vr =>
        let length := roundUp len
        if v ≠ vr.vaddr ∨ vr.length < length ∨ length < pageSize then (efault, s)
        else
          match s.mapUnmapRegion env p vr length with
          | (res, s1) => if res ≠ ok then (ok, s1.panic) else (ok, s1)

/-- `do_remap`; a process is `none` if its endpoint is not one. -/
def doRemap (s : VmState) (env : Env) (d src : Option ProcNr) (da sa size : Nat) : Int × VmState :=
  match d, src with
  | some d, some src =>
      if (s.proc src).regions = [] then (ok, s.panic)
      else
        match mapLookup (s.proc src).regions (archVir2map (s.proc src) sa) with
        | none => (einval, s)
        | some region => s.mapRemap env d da size region
  | _, _ => (einval, s)

/-- `SAFETY_CLICKS` -/
def safetyClicks : Nat := 1

/-- `adjust(rmp, data_clicks, sp)` -/
def adjust (s : VmState) (p : ProcNr) (dataClicks sp : Nat) : Int × VmState :=
  let rmp := s.proc p
  let spClick := sp / pageSize
  if rmp.stackVir + rmp.stackLen ≤ spClick then (enomem, s)
  else
    let spLower := min spClick rmp.stackVir
    if spLower < rmp.dataVir + dataClicks + safetyClicks then (enomem, s)
    else
      let delta := rmp.stackVir - spLower
      let s1 := s.setProc p
        { rmp with dataLen := dataClicks, stackVir := spLower, stackLen := rmp.stackLen + delta }
      match rmp.hasPt && !rmp.isVm, rmp.heap with
      | true, some heap =>
          if rmp.dataLen < dataClicks then
            match s1.mapRegionExtend p heap (u32 ((dataClicks - rmp.dataLen) * pageSize)) with
            | (res, s2) => (if res ≠ ok then enomem else ok, s2)
          else (ok, s1)
      | _, _ => (ok, s1)

/-- `do_brk`, with `real_brk`; `sp` is the stack pointer that the kernel reports. -/
def doBrk (s : VmState) (p : Option ProcNr) (addr sp : Nat) : Int × VmState :=
  match p with
  | none => (einval, s)
  | some p =>
      let clicks := u32 (addr + (pageSize - 1)) / pageSize
      if clicks < (s.proc p).dataVir then (enomem, s) else s.adjust p (clicks - (s.proc p).dataVir) sp

end VmState

end Minix.Vm
