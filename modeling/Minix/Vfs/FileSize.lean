/-
  Vfs/FileSize.lean --- the size of a regular file: `i_size` of the file server, and `v_size`,
  which VFS keeps beside it.

  The calls that can change a size are here with both sides: `read_write` and `fs_readwrite`,
  `truncate_vnode` and F_FREESP with `fs_ftrunc`.  A size is an `off_t`, which can be negative;
  the position of a descriptor is anything that lseek can set.
-/
import Mathlib.Algebra.Ring.Nat
import Mathlib.Algebra.Ring.Int.Defs
import Mathlib.Logic.Relation
import Mathlib.Order.Lattice

set_option autoImplicit false

namespace Minix.Vfs.FileSize

/-- The fields of the superblock; `read_super` limits `s_max_size`. -/
structure Super where
  blockSize : Nat
  maxSize : Int
  blockSize_pos : 0 < blockSize
  maxSize_lt : maxSize < 2 ^ 31

structure File where
  iSize : Int
  vSize : Int
  deriving DecidableEq

/-- What happens to a chunk of a write: an error is that of `rw_chunk` or of the disk, and for an
END_OF_FILE of the disk the request ends without an error. -/
inductive Chunk where
  | done
  | failed
  | endOfFile
  deriving DecidableEq

/-! ## The file server -/

/-- The loop of `fs_readwrite`: the position after it, and whether there was no error.  A chunk has
at least one byte, so as many turns as bytes are enough. -/
def writeLoop (sp : Super) (env : Nat → Chunk) : Nat → Nat → Nat → Nat × Bool
  | 0, position, _ => (position, true)
  | fuel + 1, position, nrbytes =>
      if nrbytes = 0 then (position, true)
      else
        let chunk := min nrbytes (sp.blockSize - position % sp.blockSize)
        match env position with
        | .done => writeLoop sp env fuel (position + chunk) (nrbytes - chunk)
        | .failed => (position, false)
        | .endOfFile => (position, true)

/-- `fs_readwrite` for a write, with the position that VFS is told; `none` is an error. -/
def fsReadwrite (sp : Super) (env : Nat → Chunk) (position nrbytes : Nat) (f : File) : Option Nat × File :=
  if sp.maxSize - nrbytes < position then (none, f)
  else
    let r := writeLoop sp env nrbytes position nrbytes
    (if r.2 then some r.1 else none, { f with iSize := if f.iSize < r.1 then r.1 else f.iSize })

/-- `fs_ftrunc`.  A range is freed without a change of the size (`freesp_inode`). -/
def fsFtrunc (sp : Super) (start «end» : Int) (f : File) : Bool × File :=
  if «end» = 0 then
    if sp.maxSize < start then (false, f) else (true, { f with iSize := start })
  else (decide (start < min «end» f.iSize), f)

/-! ## VFS -/

/-- `cmp64ul(position, v_size) > 0`, where `v_size` is taken as an unsigned number. -/
def growTo (f : File) (position : Nat) : File :=
  if f.vSize % 2 ^ 32 < position then { f with vSize := position } else f

/-- `read_write` for a write; an error leaves the position. -/
def writeFile (sp : Super) (env : Nat → Chunk) (append : Bool) (pos nbytes : Nat) (f : File) : File :=
  let position := if append then (f.vSize % 2 ^ 32).toNat else pos
  let r := fsReadwrite sp env position nbytes f
  growTo r.2 (r.1.getD position)

def truncateVnode (sp : Super) (newsize : Int) (f : File) : File :=
  let r := fsFtrunc sp newsize 0 f
  if r.1 then { r.2 with vSize := newsize } else r.2

inductive Whence where
  | seekSet
  | seekCur (pos : Nat)
  | seekEnd
  deriving DecidableEq

/-- The range of F_FREESP, with the checks for overflow. -/
def freespRange (whence : Whence) (offset len : Int) (f : File) : Option (Int × Int) :=
  let base : Int := match whence with
    | .seekSet => 0
    | .seekCur pos => pos
    | .seekEnd => f.vSize
  let start := base + offset
  if whence = .seekSet ∧ offset < 0 ∨ 2 ^ 31 ≤ start ∨ start < -2 ^ 31 then none
  else if 0 < len then if 2 ^ 31 ≤ start + len then none else some (start, start + len)
  else some (start, 0)

/-- `do_fcntl` with F_FREESP -/
def fcntlFreesp (sp : Super) (whence : Whence) (offset len : Int) (f : File) : File :=
  match freespRange whence offset len f with
  | none => f
  | some (start, «end») => (fsFtrunc sp start «end» f).2

/-! ## Calls -/

inductive Call where
  | read
  | write (env : Nat → Chunk) (append : Bool) (pos nbytes : Nat)
  | truncate (newsize : Int)
  | openTrunc
  | freesp (whence : Whence) (offset len : Int)

def Call.run (sp : Super) (f : File) : Call → File
  | .read => f
  | .write env append pos nbytes => if nbytes = 0 then f else writeFile sp env append pos nbytes f
  | .truncate newsize => truncateVnode sp newsize f
  | .openTrunc => truncateVnode sp 0 f
  | .freesp whence offset len => fcntlFreesp sp whence offset len f

/-- Positions and sizes are those of an `off_t`, and no size is negative. -/
def Call.Valid : Call → Prop
  | .write _ _ pos _ => pos < 2 ^ 31
  | .truncate newsize => 0 ≤ newsize
  | .freesp (.seekCur pos) _ _ => pos < 2 ^ 31
  | _ => True

/-- The calls that keep `v_size` right. -/
def Call.Safe (sp : Super) (f : File) : Call → Prop
  | .read => True
  | .write env append pos nbytes =>
      let position := if append then (f.vSize % 2 ^ 32).toNat else pos
      nbytes = 0 ∨
        if sp.maxSize - nbytes < position then position ≤ f.vSize
        else
          let r := writeLoop sp env nbytes position nbytes
          r.2 = true ∨ r.1 ≤ max f.vSize position
  | .truncate _ => True
  | .openTrunc => True
  | .freesp whence offset len =>
      ∀ start, freespRange whence offset len f = some (start, 0) → sp.maxSize < start ∨ start = f.vSize

/-- A run of calls that keep it right. -/
def SafeRun (sp : Super) : File → File → Prop :=
  Relation.ReflTransGen fun f f' => ∃ c : Call, c.Valid ∧ c.Safe sp f ∧ f' = c.run sp f

/-- The two sizes are the same, and that of a file. -/
structure File.Ok (f : File) : Prop where
  same : f.vSize = f.iSize
  nonneg : 0 ≤ f.vSize
  lt : f.vSize < 2 ^ 31

variable (sp : Super) {f : File} (env : Nat → Chunk)

theorem writeLoop_bounds (fuel position nrbytes : Nat) :
    position ≤ (writeLoop sp env fuel position nrbytes).1 ∧
      (writeLoop sp env fuel position nrbytes).1 ≤ position + nrbytes := by
  induction fuel generalizing position nrbytes with
  | zero => exact ⟨Nat.le_refl _, Nat.le_add_right ..⟩
  | succ fuel ih =>
    unfold writeLoop
    dsimp only
    split
    · exact ⟨Nat.le_refl _, Nat.le_add_right ..⟩
    · split
      · have hrest := ih (position + min nrbytes (sp.blockSize - position % sp.blockSize))
          (nrbytes - min nrbytes (sp.blockSize - position % sp.blockSize))
        omega
      · exact ⟨Nat.le_refl _, Nat.le_add_right ..⟩
      · exact ⟨Nat.le_refl _, Nat.le_add_right ..⟩

theorem growTo_vSize (hlo : 0 ≤ f.vSize) (hhi : f.vSize < 2 ^ 31) (position : Nat) :
    (growTo f position).vSize = max f.vSize position := by
  unfold growTo
  rw [Int.emod_eq_of_lt hlo (by omega)]
  split
  · exact (max_eq_right_of_lt ‹_›).symm
  · exact (max_eq_left (by omega)).symm

theorem growTo_iSize (f : File) (position : Nat) : (growTo f position).iSize = f.iSize := by
  unfold growTo
  split <;> rfl

/-- A write: `v_size` stays that of a file, and it is right iff the call is safe. -/
theorem writeFile_spec (h : f.Ok) {append : Bool} {pos nbytes : Nat} (hvalid : pos < 2 ^ 31) (hn : nbytes ≠ 0) :
    0 ≤ (writeFile sp env append pos nbytes f).vSize ∧ (writeFile sp env append pos nbytes f).vSize < 2 ^ 31 ∧
      ((writeFile sp env append pos nbytes f).vSize = (writeFile sp env append pos nbytes f).iSize ↔
        (Call.write env append pos nbytes).Safe sp f) := by
  have hsame := h.same
  have hlo := h.nonneg
  have hhi := h.lt
  have hmax := sp.maxSize_lt
  unfold writeFile Call.Safe fsReadwrite
  dsimp only
  generalize hpos : (if append then (f.vSize % 2 ^ 32).toNat else pos) = position
  have hposlt : position < 2 ^ 31 := by
    rw [← hpos]
    split <;> omega
  simp only [hn, false_or]
  split
  · dsimp only
    rw [Option.getD_none, growTo_vSize hlo hhi, growTo_iSize]
    omega
  · have hbounds := writeLoop_bounds sp env nbytes position nbytes
    generalize writeLoop sp env nbytes position nbytes = r at hbounds
    dsimp only
    rw [growTo_vSize (by exact hlo) (by exact hhi), growTo_iSize]
    dsimp only
    cases hok : r.2 with
    | true =>
      simp only [if_true, Option.getD_some, true_or, iff_true]
      split <;> omega
    | false =>
      simp only [Bool.false_eq_true, if_false, Option.getD_none, false_or]
      split <;> omega

theorem truncateVnode_ok (h : f.Ok) {newsize : Int} (hnew : 0 ≤ newsize) : (truncateVnode sp newsize f).Ok := by
  have hmax := sp.maxSize_lt
  unfold truncateVnode fsFtrunc
  rw [if_pos rfl]
  split
  · exact h
  · exact ⟨rfl, hnew, by simp only [if_true]; omega⟩

/-- F_FREESP changes `i_size` only, to where a range without an end starts. -/
theorem fcntlFreesp_spec (h : f.Ok) {whence : Whence} {offset len : Int} :
    (fcntlFreesp sp whence offset len f).vSize = f.vSize ∧
      ((fcntlFreesp sp whence offset len f).vSize = (fcntlFreesp sp whence offset len f).iSize ↔
        (Call.freesp whence offset len).Safe sp f) := by
  have hsame := h.same
  unfold fcntlFreesp Call.Safe fsFtrunc
  dsimp only
  generalize freespRange whence offset len f = range
  rcases range with _ | ⟨start, stop⟩
  · simp [hsame]
  · dsimp only
    by_cases hstop : stop = 0
    · subst hstop
      rw [if_pos rfl]
      split
      · simp_all
      · simp_all [eq_comm]
    · simp [hstop, hsame]

theorem Call.spec (h : f.Ok) {c : Call} (hvalid : c.Valid) :
    0 ≤ (c.run sp f).vSize ∧ (c.run sp f).vSize < 2 ^ 31 ∧
      ((c.run sp f).vSize = (c.run sp f).iSize ↔ c.Safe sp f) := by
  cases c with
  | read => exact ⟨h.nonneg, h.lt, iff_of_true h.same trivial⟩
  | write env append pos nbytes =>
    simp only [Call.run]
    split_ifs with hn
    · exact ⟨h.nonneg, h.lt, iff_of_true h.same (.inl hn)⟩
    · exact writeFile_spec sp env h hvalid hn
  | truncate newsize =>
    have hok := truncateVnode_ok sp h hvalid
    exact ⟨hok.nonneg, hok.lt, iff_of_true hok.same trivial⟩
  | openTrunc =>
    have hok := truncateVnode_ok sp h (Int.le_refl 0)
    exact ⟨hok.nonneg, hok.lt, iff_of_true hok.same trivial⟩
  | freesp whence offset len =>
    obtain ⟨hv, hiff⟩ := fcntlFreesp_spec sp h
    exact ⟨hv ▸ h.nonneg, hv ▸ h.lt, hiff⟩

variable {sp}

theorem SafeRun.ok {f0 : File} (h0 : f0.Ok) (hrun : SafeRun sp f0 f) : f.Ok := by
  induction hrun with
  | refl => exact h0
  | tail _ hstep ih =>
    obtain ⟨c, hvalid, hsafe, rfl⟩ := hstep
    obtain ⟨hlo, hlt, hiff⟩ := Call.spec sp ih hvalid
    exact ⟨hiff.mpr hsafe, hlo, hlt⟩

/-- From an open with the size that the server has told: while all calls are safe the two sizes are
the same, and the next call leaves them the same iff it is safe. -/
theorem vSize_eq_iSize_iff {f0 : File} (h0 : f0.Ok) (hrun : SafeRun sp f0 f) :
    f.vSize = f.iSize ∧ ∀ c : Call, c.Valid → ((c.run sp f).vSize = (c.run sp f).iSize ↔ c.Safe sp f) :=
  ⟨(hrun.ok h0).same, fun _ hvalid => (Call.spec sp (hrun.ok h0) hvalid).2.2⟩

/-- A file system with small blocks, and a disk that is full after the first one of a file. -/
def small : Super := ⟨1024, 100000, by decide, by decide⟩

def full (position : Nat) : Chunk := if position < 1024 then .done else .failed

theorem vSize_eq_iSize_append :
    ((Call.write full true 0 24).run small ⟨1000, 1000⟩).vSize = ((Call.write full true 0 24).run small ⟨1000, 1000⟩).iSize := by
  refine ((vSize_eq_iSize_iff ⟨rfl, by decide, by decide⟩ .refl).2 (.write full true 0 24) ?_).mpr ?_
  · exact Nat.zero_lt_succ _
  · exact .inr (.inl rfl)

/-- A write of two blocks that fails after the first: the server has the size 1024, VFS 0.  A write
that is too large, behind the end: VFS has the size 5000.  F_FREESP without an end: VFS keeps the
size 1000. -/
theorem sizes_differ :
    (Call.write full false 0 2048).run small ⟨0, 0⟩ = ⟨1024, 0⟩ ∧
      (Call.write full false 5000 100000).run small ⟨0, 0⟩ = ⟨0, 5000⟩ ∧
      (Call.freesp .seekSet 10 0).run small ⟨1000, 1000⟩ = ⟨10, 1000⟩ := by
  decide +kernel

end Minix.Vfs.FileSize
