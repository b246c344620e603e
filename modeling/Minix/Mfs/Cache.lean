/-
  Mfs/Cache.lean --- the buffer cache of the file system: `cache.c`, and `rahead`.

  A buffer has a block of some device.  Buffers are on hash chains by block number, and
  those that nobody uses on an LRU list.  A buffer is valid if it has a device; while
  blocks are read ahead their buffers have none, although they are on the chains of the
  blocks that are to be read.

  The contents of a block are of any type.  Devices work without errors, but may do only a
  part of a request for several blocks; what they do is in an environment.
-/
import Mathlib.Algebra.Ring.Nat
import Minix.Foundation.HashChain
import Minix.Foundation.DoublyLinked

set_option autoImplicit false

namespace Minix.Mfs

open Minix.Foundation Function

/-! ## Constants -/

def nrBufs : Nat := 1024
def nrIoreqs : Nat := 64
def noDev : Nat := 0
def noBlock : Nat := 0
def devRam : Nat := 0x0100

/-- Bits of the type that `put_block` is told. -/
def writeImmed : BitVec 16 := 0x40#16
def oneShot : BitVec 16 := 0x80#16

def fullDataBlock : BitVec 16 := 5#16
def partialDataBlock : BitVec 16 := 6#16

/-! ## State -/

/-- The buffers, and the hash chains. -/
abbrev BufNr := Fin nrBufs

instance : NeZero nrBufs := ⟨by decide⟩

/-- `struct buf` without the links; `allocated` says that `b_bytes` is the block size. -/
structure Buf (α : Type) where
  data : α
  blocknr : Nat
  dev : Nat
  dirt : Bool
  count : BitVec 8
  allocated : Bool

/-- The cache, and what is on the devices.  `clock` counts device requests and
allocations. -/
structure Cache (α : Type) where
  buf : BufNr → Buf α
  hash : Links BufNr BufNr
  lru : DLinks BufNr
  bufsInUse : Int
  disk : Nat → Nat → α
  clock : Nat

/-- How `get_block` looks for a block. -/
inductive Search where
  | normal
  | noRead
  | prefetch
  deriving DecidableEq, Repr

/-- What others do: whether there is memory for a buffer, and how many blocks a device reads
or writes at once. -/
structure DiskEnv where
  allocs : Nat → Bool
  reads : Nat → Nat
  writes : Nat → Nat

/-- `BUFHASH(b)` -/
def bufhash (b : Nat) : BufNr := ⟨b % nrBufs, Nat.mod_lt _ (by decide)⟩

namespace Cache

variable {α : Type}

def setBuf (c : Cache α) (bp : BufNr) (b : Buf α) : Cache α :=
  { c with buf := update c.buf bp b }

def setCount (c : Cache α) (bp : BufNr) (n : BitVec 8) : Cache α :=
  c.setBuf bp { c.buf bp with count := n }

def tick (c : Cache α) : Cache α := { c with clock := c.clock + 1 }

/-! ## Device requests -/

/-- The block of the buffer is written, and the buffer is clean. -/
def writeOut (dev : Nat) (c : Cache α) (bp : BufNr) : Cache α :=
  { c.setBuf bp { c.buf bp with dirt := false } with
    disk := update c.disk dev (update (c.disk dev) (c.buf bp).blocknr (c.buf bp).data) }

/-- `rw_block(bp, READING)` -/
def readBlock (c : Cache α) (bp : BufNr) : Cache α :=
  let b := c.buf bp
  if b.dev ≠ noDev then c.tick.setBuf bp { b with data := c.disk b.dev b.blocknr, dirt := false }
  else c.setBuf bp { b with dirt := false }

/-- `rw_block(bp, WRITING)` -/
def writeBlock (c : Cache α) (bp : BufNr) : Cache α :=
  let b := c.buf bp
  if b.dev ≠ noDev then writeOut b.dev c.tick bp else c.setBuf bp { b with dirt := false }

/-! ## Lists -/

/-- `rm_lru(bp)` -/
def rmLru (c : Cache α) (bp : BufNr) : Cache α :=
  { c with bufsInUse := c.bufsInUse + 1, lru := c.lru.remove bp }

/-- The search of `get_block` on the hash chain. -/
def search (c : Cache α) (dev block : Nat) : Option BufNr :=
  c.hash.find (fun x => (c.buf x).blocknr == block && (c.buf x).dev == dev) (nrBufs + 1) (bufhash block)

/-- The buffer is taken from its hash chain. -/
def unhash (c : Cache α) (bp : BufNr) : Cache α :=
  { c with hash := c.hash.takeOut (nrBufs + 1) (bufhash (c.buf bp).blocknr) bp }

/-- The buffer is put on the hash chain of its block. -/
def rehash (c : Cache α) (bp : BufNr) : Cache α :=
  { c with hash := c.hash.fileAt (bufhash (c.buf bp).blocknr) bp }

/-- The buffer is put back on the LRU list, at the front or at the rear. -/
def addLru (c : Cache α) (bp : BufNr) (front : Bool) : Cache α :=
  { c with
    bufsInUse := c.bufsInUse - 1
    lru := if front then c.lru.pushFront bp else c.lru.pushBack bp }

/-- `put_block(bp, block_type)` -/
def putBlock (c : Cache α) (bp : BufNr) (blockType : BitVec 16) : Cache α :=
  let b := c.buf bp
  let c1 := c.setCount bp (b.count - 1#8)
  if b.count - 1#8 ≠ 0#8 then c1
  else
    let c2 := c1.addLru bp (b.dev = devRam ∨ blockType &&& oneShot ≠ 0#16)
    if blockType &&& writeImmed ≠ 0#16 ∧ b.dirt = true ∧ b.dev ≠ noDev then c2.writeBlock bp else c2

/-! ## Scattered requests -/

/-- The inner loop of the sort: the entry at `i + gap` moves down. -/
def sift (key : BufNr → Nat) (gap : Nat) : Nat → Nat → Array BufNr → Array BufNr
  | 0, _, q => q
  | fuel + 1, i, q =>
      if key (q.getD (i + gap) 0) < key (q.getD i 0) then
        let q1 := q.swapIfInBounds i (i + gap)
        if i < gap then q1 else sift key gap fuel (i - gap) q1
      else q

/-- The loop over `j` for one gap. -/
def sortPass (key : BufNr → Nat) (gap : Nat) (q : Array BufNr) : Array BufNr :=
  (List.range' gap (q.size - gap)).foldl (fun q j => sift key gap (j + 1) (j - gap) q) q

/-- The first gap: the first number of the series above the size. -/
def firstGap (size : Nat) : Nat → Nat → Nat
  | 0, gap => gap
  | fuel + 1, gap => if 3 * gap + 1 ≤ size then firstGap size fuel (3 * gap + 1) else 3 * gap + 1

/-- The loop over the gaps. -/
def sortGaps (key : BufNr → Nat) : Nat → Nat → Array BufNr → Array BufNr
  | 0, _, q => q
  | fuel + 1, gap, q =>
      if gap = 1 then q else sortGaps key fuel (gap / 3) (sortPass key (gap / 3) q)

/-- The (Shell) sort of `rw_scattered`. -/
def sortBufs (key : BufNr → Nat) (q : List BufNr) : List BufNr :=
  let gap := firstGap q.length (q.length + 1) 1
  (sortGaps key gap gap q.toArray).toList

/-- How many of the buffers go into one request: those with consecutive blocks. -/
def batchLen (key : BufNr → Nat) (first : Nat) : Nat → List BufNr → Nat
  | _, [] => 0
  | j, bp :: q => if j < nrIoreqs ∧ key bp = first + j then batchLen key first (j + 1) q + 1 else 0

/-- The buffers for the next request. -/
def nextBatch (c : Cache α) (q : List BufNr) : Nat :=
  match q with
  | [] => 0
  | bp :: _ => batchLen (fun x => (c.buf x).blocknr) (c.buf bp).blocknr 0 q

/-- The loop of `rw_scattered` for writing.  A device that writes nothing ends it. -/
def scatter (env : DiskEnv) (dev : Nat) : Nat → List BufNr → Cache α → Cache α
  | 0, _, c => c
  | fuel + 1, q, c =>
      if q = [] then c
      else
        let i := min (c.nextBatch q) (env.writes c.clock)
        let c1 := (q.take i).foldl (writeOut dev) c.tick
        if i = 0 then c1 else scatter env dev fuel (q.drop i) c1

/-- A block that has been read: the buffer becomes valid and is released. -/
def validate (dev : Nat) (c : Cache α) (bp : BufNr) : Cache α :=
  (c.setBuf bp { c.buf bp with data := c.disk dev (c.buf bp).blocknr, dev := dev }).putBlock bp partialDataBlock

def release (c : Cache α) (bp : BufNr) : Cache α := c.putBlock bp partialDataBlock

/-- The loop of `rw_scattered` for reading: what is not read at once is released. -/
def gather (env : DiskEnv) (dev : Nat) (q : List BufNr) (c : Cache α) : Cache α :=
  let i := min (c.nextBatch q) (env.reads c.clock)
  (q.drop i).foldl release ((q.take i).foldl (validate dev) c.tick)

/-- `rw_scattered(dev, bufq, bufqsize, WRITING)` -/
def scatterBufs (c : Cache α) (env : DiskEnv) (dev : Nat) (q : List BufNr) : Cache α :=
  scatter env dev q.length (sortBufs (fun x => (c.buf x).blocknr) q) c

/-- `rw_scattered(dev, bufq, bufqsize, READING)` -/
def gatherBufs (c : Cache α) (env : DiskEnv) (dev : Nat) (q : List BufNr) : Cache α :=
  gather env dev (sortBufs (fun x => (c.buf x).blocknr) q) c

/-- `flushall(dev)` -/
def flushall (c : Cache α) (env : DiskEnv) (dev : Nat) : Cache α :=
  c.scatterBufs env dev ((List.finRange nrBufs).filter fun bp => (c.buf bp).dirt && (c.buf bp).dev == dev)

/-! ## Blocks -/

/-- The first buffer from `bp` on along the LRU list that has memory. -/
def withMemory (c : Cache α) : Nat → Option BufNr → Option BufNr
  | 0, _ => none
  | _, none => none
  | fuel + 1, some bp => if (c.buf bp).allocated then some bp else withMemory c fuel (c.lru.next bp)

/-- The buffer that is evicted, with memory.  Without one MFS panics. -/
def victim (c : Cache α) (env : DiskEnv) : Option (BufNr × Cache α) :=
  match c.lru.front with
  | none => none
  | some bp =>
      if (c.buf bp).allocated then some (bp, c)
      else if env.allocs c.clock then some (bp, c.tick.setBuf bp { c.buf bp with allocated := true })
      else (c.withMemory (nrBufs + 1) (some bp)).map fun x => (x, c.tick)

/-- A buffer that has been found is used once more. -/
def use (c : Cache α) (bp : BufNr) : Cache α :=
  let c1 := if (c.buf bp).count = 0#8 then c.rmLru bp else c
  c1.setCount bp ((c.buf bp).count + 1#8)

/-- The buffer leaves its lists, and what is in it is written. -/
def evict (c : Cache α) (env : DiskEnv) (bp : BufNr) : Cache α :=
  let c1 := (c.rmLru bp).unhash bp
  if (c.buf bp).dev ≠ noDev ∧ (c.buf bp).dirt = true then c1.flushall env (c.buf bp).dev else c1

/-- The buffer is for the block now. -/
def assign (c : Cache α) (bp : BufNr) (dev block : Nat) : Cache α :=
  (c.setBuf bp
    { c.buf bp with dev := dev, blocknr := block, count := (c.buf bp).count + 1#8 }).rehash bp

/-- What `get_block` does at the end with a buffer that is new for the block. -/
def fill (c : Cache α) (bp : BufNr) (dev : Nat) (onlySearch : Search) : Cache α :=
  if dev = noDev then c
  else
    match onlySearch with
    | .prefetch => c.setBuf bp { c.buf bp with dev := noDev }
    | .normal => c.readBlock bp
    | .noRead => c

/-- `get_block(dev, block, only_search)`; without a result MFS panics. -/
def getBlock (c : Cache α) (env : DiskEnv) (dev block : Nat) (onlySearch : Search) :
    Option (BufNr × Cache α) :=
  match if dev ≠ noDev then c.search dev block else none with
  | some bp => some (bp, c.use bp)
  | none =>
      match c.victim env with
      | none => none
      | some (bp, c1) => some (bp, ((c1.evict env bp).assign bp dev block).fill bp dev onlySearch)

/-- The loop of `rahead` that acquires buffers; `bp` has been acquired for `block`. -/
def raheadLoop (env : DiskEnv) (dev : Nat) :
    Nat → Nat → Nat → BufNr → List BufNr → Cache α → Option (List BufNr × Cache α)
  | 0, _, _, _, _, _ => none
  | fuel + 1, block, blocksAhead, bp, q, c =>
      let q1 := q ++ [bp]
      let left := (blocksAhead + (2 ^ 32 - 1)) % 2 ^ 32
      if left = 0 then some (q1, c)
      else if (nrBufs : Int) - 4 ≤ c.bufsInUse then some (q1, c)
      else
        match c.getBlock env dev (block + 1) .prefetch with
        | none => none
        | some (bp1, c1) =>
            if (c1.buf bp1).dev ≠ noDev then some (q1, c1.putBlock bp1 fullDataBlock)
            else raheadLoop env dev fuel (block + 1) left bp1 q1 c1

/-- `rahead`, with the number of blocks that it has settled on. -/
def rahead (c : Cache α) (env : DiskEnv) (dev baseblock blocksAhead : Nat) : Option (BufNr × Cache α) :=
  match c.getBlock env dev baseblock .prefetch with
  | none => none
  | some (bp, c1) =>
      if (c1.buf bp).dev ≠ noDev then some (bp, c1)
      else
        match raheadLoop env dev nrBufs baseblock blocksAhead bp [] c1 with
        | none => none
        | some (q, c2) => (c2.gatherBufs env dev q).getBlock env dev baseblock .normal

/-- A block is modified in its buffer, which is marked. -/
def modify (c : Cache α) (bp : BufNr) (x : α) : Cache α :=
  c.setBuf bp { c.buf bp with data := x, dirt := true }

/-- `buf_pool()` in memory that is zero otherwise. -/
def bufPool (disk : Nat → Nat → α) (garbage : BufNr → α) : Cache α where
  buf bp := ⟨garbage bp, noBlock, noDev, false, 0#8, false⟩
  hash := Links.inOrder (by decide) fun h => h.val == 0
  lru := DLinks.inOrder (by decide)
  bufsInUse := 0
  disk := disk
  clock := 0

end Cache

end Minix.Mfs
