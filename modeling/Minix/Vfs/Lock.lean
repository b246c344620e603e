/-
  Vfs/Lock.lean --- record locks: `lock.c`, and the end of `close_fd`.

  The lock table has a few slots for all processes and files.  A request scans it from the
  first slot to the last; a request to unlock changes the locks that it meets on the way.
  What the locks of a process on a file stand for is a map from bytes to modes, and a request
  is to update this map on its range and nothing else.
-/
import Mathlib.Algebra.Ring.Nat
import Mathlib.Algebra.Ring.Int.Defs
import Mathlib.Data.Finset.Card
import Mathlib.Data.Fintype.Card
import Mathlib.Logic.Relation

set_option autoImplicit false

namespace Minix.Vfs

open Relation List Option

variable {pid : Nat} {first last : Int}

/-! ## Model -/

def nrLocks : Nat := 8

/-- `MAX_FILE_POS` -/
def maxFilePos : Int := 0x7FFFFFFF

/-- What an `off_t` holds of a number. -/
def i32 (n : Int) : Int := n.bmod (2 ^ 32)

inductive LockMode where
  | rd
  | wr
  deriving DecidableEq, Repr

variable {mode : LockMode}

/-- `struct file_lock` of a slot in use. -/
structure FileLock where
  mode : LockMode
  pid : Nat
  vnode : Nat
  first : Int
  last : Int
  deriving DecidableEq, Repr

variable {l old : FileLock}

abbrev LockNr := Fin nrLocks

variable {i : LockNr} {rest : List LockNr}

/-- `file_lock` and `nr_locks`; a slot without a lock has `lock_type` 0. -/
structure LockTable where
  slot : LockNr → Option FileLock
  count : Int

variable {t' t : LockTable}

/-- The requests of `fcntl` for locks. -/
inductive LockCmd where
  | getlk
  | setlk
  | setlkw
  deriving DecidableEq, Repr

/-- `l_whence` -/
inductive Whence where
  | set
  | cur
  | fromEnd
  | other
  deriving DecidableEq, Repr

/-- `l_type`: `none` is F_UNLCK. -/
inductive LockType where
  | lock (mode : LockMode)
  | unlock
  | other
  deriving DecidableEq, Repr

/-- A request: what `lock_op` reads of the caller, of its `flock` structure and of the filp.
`copied` says whether the structure could be copied. -/
structure LockRequest where
  cmd : LockCmd
  pid : Nat
  copied : Bool
  type : LockType
  whence : Whence
  start : BitVec 32
  len : BitVec 32
  readable : Bool
  writable : Bool
  posHi : BitVec 32
  posLo : BitVec 32
  vnode : Nat
  regular : Bool
  size : BitVec 32

variable {rq : LockRequest}

/-- The results of `lock_op`. -/
inductive LockResult where
  | ok
  | einval
  | ebadf
  | eagain
  | enolck
  | suspend
  | panic
  deriving DecidableEq, Repr

namespace LockTable

/-- The first slot that is not in use. -/
def firstFree (t : LockTable) : Option LockNr := (List.finRange nrLocks).find? fun i => (t.slot i).isNone

def set (t : LockTable) (i : LockNr) (l : Option FileLock) (count : Int) : LockTable :=
  ⟨Function.update t.slot i l, count⟩

/-- A lock that overlaps the range is cut; `none` is ENOLCK.  If no slot is free although the
count says so, the lock past the end of the table would be written; that is left out. -/
def cut (t : LockTable) (i : LockNr) (l : FileLock) (first last : Int) : Option LockTable :=
  if first ≤ l.first ∧ l.last ≤ last then some (t.set i none (t.count - 1))
  else if first ≤ l.first then some (t.set i (some { l with first := last + 1 }) t.count)
  else if l.last ≤ last then some (t.set i (some { l with last := first - 1 }) t.count)
  else if t.count = nrLocks then none
  else
    match t.firstFree with
    | none => some t
    | some j =>
        some ((t.set j (some { l with first := last + 1 }) (t.count + 1)).set i
          (some { l with last := first - 1 }) (t.count + 1))

end LockTable

/-- How the scan of the table ends. -/
inductive Scan where
  | stop (result : LockResult) (t : LockTable)
  | done (t : LockTable) (empty conflict : Option LockNr)

/-- Whether the lock is not in the way of the request. -/
def FileLock.clear (l : FileLock) (rq : LockRequest) (first last : Int) : Bool :=
  l.vnode != rq.vnode || last < l.first || l.last < first ||
    (rq.type == .lock .rd && l.mode == .rd) || (rq.type != .unlock && l.pid == rq.pid)

/-- The scan of `lock_op` from these slots on. -/
def scan (rq : LockRequest) (first last : Int) : List LockNr → LockTable → Option LockNr → Option LockNr → Scan
  | [], t, empty, conflict => .done t empty conflict
  | i :: rest, t, empty, conflict =>
      match t.slot i with
      | none => scan rq first last rest t (empty <|> some i) conflict
      | some l =>
          if l.clear rq first last then scan rq first last rest t empty conflict
          else if rq.cmd = .getlk then .done t empty (some i)
          else if rq.type ≠ .unlock then .stop (if rq.cmd = .setlk then .eagain else .suspend) t
          else
            match t.cut i l first last with
            | none => .stop .enolck t
            | some t1 => scan rq first last rest t1 empty (some i)

/-- The first byte of the range, before `l_start` is added. -/
def LockRequest.base (rq : LockRequest) : Option Int :=
  match rq.whence with
  | .set => some 0
  | .cur => some rq.posLo.toInt
  | .fromEnd => some rq.size.toInt
  | .other => none

/-- The first and the last byte of the range; `none` is EINVAL. -/
def LockRequest.range (rq : LockRequest) : Option (Int × Int) :=
  match rq.base with
  | none => none
  | some base =>
      let start := rq.start.toInt
      let first := i32 (base + start)
      let last := if rq.len = 0#32 then maxFilePos else i32 (first + rq.len.toInt - 1)
      if (0 < start ∧ first < base) ∨ (start < 0 ∧ base < first) then none
      else if last < first then none
      else some (first, last)

/-- The end of `lock_op` when the scan is done. -/
def finish (rq : LockRequest) (first last : Int) (t : LockTable) (empty : Option LockNr) :
    LockResult × LockTable :=
  if rq.cmd = .getlk then (.ok, t)
  else
    match rq.type, empty with
    | .lock mode, some i => (.ok, t.set i (some ⟨mode, rq.pid, rq.vnode, first, last⟩) (t.count + 1))
    | .lock _, none => (.enolck, t)
    | _, _ => (.ok, t)

/-- The check of the mode of the filp. -/
def LockRequest.permitted (rq : LockRequest) : Bool :=
  rq.cmd == .getlk || ((rq.type != .lock .rd || rq.readable) && (rq.type != .lock .wr || rq.writable))

/-- `lock_op(f, req)`: the result and the table.  What is copied back for F_GETLK, and the
processes that `lock_revive` wakes up, are left out. -/
def lockOp (t : LockTable) (rq : LockRequest) : LockResult × LockTable :=
  if !rq.copied then (.einval, t)
  else if rq.type = .other then (.einval, t)
  else if rq.cmd = .getlk ∧ rq.type = .unlock then (.einval, t)
  else if !rq.regular then (.einval, t)
  else if !rq.permitted then (.ebadf, t)
  else if rq.whence = .cur ∧ rq.posHi ≠ 0#32 then (.panic, t)
  else
    match rq.range with
    | none => (.einval, t)
    | some (first, last) =>
        match scan rq first last (List.finRange nrLocks) t none none with
        | .stop result t1 => (result, t1)
        | .done t1 empty _ => finish rq first last t1 empty

/-- Whether `lock_op` comes to `lock_revive`: a lock has been found in the range that is to be
unlocked. -/
def unlocking (t : LockTable) (rq : LockRequest) : Bool :=
  rq.type = .unlock &&
    match rq.range with
    | none => false
    | some (first, last) =>
        match scan rq first last (List.finRange nrLocks) t none none with
        | .stop _ _ => false
        | .done _ _ conflict => conflict.isSome

/-- The release of locks at the end of `close_fd`. -/
def releaseLocks (t : LockTable) (pid vnode : Nat) : LockTable :=
  (List.finRange nrLocks).foldl
    (fun t i =>
      match t.slot i with
      | none => t
      | some l => if l.vnode = vnode ∧ l.pid = pid then t.set i none (t.count - 1) else t) t

/-! ## The map that locks stand for -/

/-- The byte is in the range of the lock. -/
def FileLock.covers (l : FileLock) (b : Int) : Prop := l.first ≤ b ∧ b ≤ l.last

/-- What the lock gives: the process has the mode on the byte of the file. -/
def FileLock.gives (l : FileLock) (pid vnode : Nat) (b : Int) (mode : LockMode) : Prop :=
  l.pid = pid ∧ l.vnode = vnode ∧ l.mode = mode ∧ l.covers b

/-- The process has a lock with this mode on the byte of the file. -/
def LockTable.Holds (t : LockTable) (pid vnode : Nat) (b : Int) (mode : LockMode) : Prop :=
  ∃ i l, t.slot i = some l ∧ l.gives pid vnode b mode

/-- What a request is to do to the locks: the new mode on the range, and everything else as
it was; without success, nothing. -/
def Updates (rq : LockRequest) (t : LockTable) (out : LockResult × LockTable) : Prop :=
  if out.1 = .ok ∧ rq.cmd ≠ .getlk then
    ∃ first last, rq.range = some (first, last) ∧ ∀ pid vnode b mode,
      out.2.Holds pid vnode b mode ↔
        if pid = rq.pid ∧ vnode = rq.vnode ∧ first ≤ b ∧ b ≤ last then rq.type = .lock mode
        else t.Holds pid vnode b mode
  else out.2 = t

/-- The lock is on the file of the request, and in its range. -/
def FileLock.Overlaps (l : FileLock) (rq : LockRequest) (first last : Int) : Prop :=
  l.vnode = rq.vnode ∧ l.first ≤ last ∧ first ≤ l.last

namespace LockTable

/-- The slots in use. -/
def used (t : LockTable) : Finset LockNr := Finset.univ.filter fun i => (t.slot i).isSome

/-- Locks are not empty, and are counted. -/
structure Wf (t : LockTable) : Prop where
  nonempty : ∀ i l, t.slot i = some l → l.first ≤ l.last
  count : t.count = t.used.card

variable {t : LockTable}

theorem mem_used : i ∈ t.used ↔ ∃ l, t.slot i = some l := by
  simp [used, isSome_iff_exists]

@[simp] theorem set_slot_self {t : LockTable} {i : LockNr} {o : Option FileLock} {n : Int} :
    (t.set i o n).slot i = o := by
  simp [set]

theorem set_slot_of_ne {t : LockTable} {j : LockNr} {o : Option FileLock} {n : Int} (h : j ≠ i) :
    (t.set i o n).slot j = t.slot j := by
  simp [set, h]

theorem used_set_some (t : LockTable) (i : LockNr) (l : FileLock) (n : Int) :
    (t.set i (some l) n).used = insert i t.used := by
  ext j
  rw [Finset.mem_insert, mem_used, mem_used]
  by_cases hj : j = i
  · subst hj
    simp
  · rw [set_slot_of_ne hj]
    simp [hj]

theorem used_set_none (t : LockTable) (i : LockNr) (n : Int) :
    (t.set i none n).used = t.used.erase i := by
  ext j
  rw [Finset.mem_erase, mem_used, mem_used]
  by_cases hj : j = i
  · subst hj
    simp
  · rw [set_slot_of_ne hj]
    simp [hj]

theorem Wf.nonempty_set (h : Wf t) {o : Option FileLock} (ho : ∀ l ∈ o, l.first ≤ l.last) {n : Int}
    (j : LockNr) (l : FileLock) (hl : (t.set i o n).slot j = some l) : l.first ≤ l.last := by
  by_cases hj : j = i
  · subst hj
    rw [set_slot_self] at hl
    exact ho l hl
  · rw [set_slot_of_ne hj] at hl
    exact h.nonempty j l hl

/-- A lock is put into a free slot. -/
theorem Wf.add (h : Wf t) (hfree : t.slot i = none) (hl : l.first ≤ l.last) :
    Wf (t.set i (some l) (t.count + 1)) where
  nonempty := h.nonempty_set (by simpa using hl)
  count := by
    have hnot : i ∉ t.used := by
      rw [mem_used, hfree]
      simp
    rw [used_set_some, Finset.card_insert_of_notMem hnot]
    push_cast
    rw [← h.count]
    rfl

/-- A lock is replaced. -/
theorem Wf.replace (h : Wf t) (hold : t.slot i = some old)
    (hl : l.first ≤ l.last) : Wf (t.set i (some l) t.count) where
  nonempty := h.nonempty_set (by simpa using hl)
  count := by
    rw [used_set_some, Finset.insert_eq_of_mem (mem_used.mpr ⟨old, hold⟩)]
    exact h.count

/-- A lock goes. -/
theorem Wf.remove (h : Wf t) (hold : t.slot i = some old) : Wf (t.set i none (t.count - 1)) where
  nonempty := h.nonempty_set (by simp)
  count := by
    have hmem : i ∈ t.used := mem_used.mpr ⟨old, hold⟩
    have hpos : 0 < t.used.card := Finset.card_pos.mpr ⟨i, hmem⟩
    rw [used_set_none, Finset.card_erase_of_mem hmem]
    show t.count - 1 = _
    rw [h.count]
    omega

/-- While the count says so there is a free slot. -/
theorem Wf.exists_free (h : Wf t) (hcount : t.count ≠ nrLocks) : ∃ j, t.firstFree = some j ∧ t.slot j = none := by
  rcases hfree : t.firstFree with _ | j
  · exfalso
    have hall : t.used = Finset.univ := by
      ext j
      have hsome := find?_eq_none.mp hfree j (mem_finRange j)
      rw [mem_used, ← ne_none_iff_exists']
      simpa using hsome
    refine hcount ?_
    rw [h.count, hall, Finset.card_univ, Fintype.card_fin]
  · refine ⟨j, rfl, ?_⟩
    have hnone := find?_some hfree
    simpa using hnone

/-- What the table gives, with one slot looked at for itself. -/
theorem holds_iff {t : LockTable} {i : LockNr} {pid vnode : Nat} {b : Int} {mode : LockMode} :
    t.Holds pid vnode b mode ↔
      (∃ l, t.slot i = some l ∧ l.gives pid vnode b mode) ∨
        ∃ j, j ≠ i ∧ ∃ l, t.slot j = some l ∧ l.gives pid vnode b mode := by
  constructor
  · rintro ⟨j, l, hl, hgives⟩
    by_cases hj : j = i
    · exact .inl ⟨l, hj ▸ hl, hgives⟩
    · exact .inr ⟨j, hj, l, hl, hgives⟩
  · rintro (⟨l, hl, hgives⟩ | ⟨j, -, l, hl, hgives⟩)
    · exact ⟨i, l, hl, hgives⟩
    · exact ⟨j, l, hl, hgives⟩

section Holds

variable {o : Option FileLock} {n : Int} {vnode : Nat} {b : Int}

theorem holds_set_iff : (t.set i o n).Holds pid vnode b mode ↔
    (∃ l, o = some l ∧ l.gives pid vnode b mode) ∨
      ∃ j, j ≠ i ∧ ∃ l, t.slot j = some l ∧ l.gives pid vnode b mode := by
  rw [holds_iff, set_slot_self]
  refine or_congr Iff.rfl (exists_congr fun j => and_congr_right fun hj => ?_)
  rw [set_slot_of_ne hj]

/-- Only one slot has changed, and gives the same. -/
theorem holds_set
    (h : (∃ l, o = some l ∧ l.gives pid vnode b mode) ↔ ∃ l, t.slot i = some l ∧ l.gives pid vnode b mode) :
    (t.set i o n).Holds pid vnode b mode ↔ t.Holds pid vnode b mode := by
  rw [holds_set_iff, holds_iff, h]

/-- With a lock added, its bytes are locked as well. -/
theorem holds_add (hfree : t.slot i = none) :
    (t.set i (some l) n).Holds pid vnode b mode ↔ l.gives pid vnode b mode ∨ t.Holds pid vnode b mode := by
  rw [holds_set_iff, holds_iff, hfree]
  simp

end Holds

/-- All that the table gives is given by the other one. -/
def Within (t' t : LockTable) : Prop :=
  ∀ pid vnode b mode, t'.Holds pid vnode b mode → t.Holds pid vnode b mode

theorem Within.trans {t'' : LockTable} (h : t''.Within t') (h' : t'.Within t) : t''.Within t :=
  fun pid vnode b mode hb => h' pid vnode b mode (h pid vnode b mode hb)

/-- A lock that has been cut at a slot: it is out of the range, and outside of the range
everything is as it was. -/
structure Cuts (t t' : LockTable) (i : LockNr) (v : Nat) (first last : Int) : Prop where
  wf : Wf t'
  self : ∀ l, t'.slot i = some l → l.last < first ∨ last < l.first
  other : ∀ j, j ≠ i → t'.slot j = t.slot j ∨ ∃ l, t'.slot j = some l ∧ last < l.first
  holds : ∀ pid vnode b mode, (vnode ≠ v ∨ b < first ∨ last < b) →
    (t'.Holds pid vnode b mode ↔ t.Holds pid vnode b mode)

/-- A lock that is narrowed to a part that is out of the range. -/
theorem Cuts.narrow {a z : Int} (h : Wf t) (hl : t.slot i = some l) (hne : a ≤ z) (hself : z < first ∨ last < a)
    (hcovers : ∀ b, b < first ∨ last < b → (a ≤ b ∧ b ≤ z ↔ l.first ≤ b ∧ b ≤ l.last)) :
    Cuts t (t.set i (some { l with first := a, last := z }) t.count) i l.vnode first last := by
  refine ⟨h.replace hl hne, ?_, fun j hj => .inl (set_slot_of_ne hj), ?_⟩
  · intro l' hl'
    rw [set_slot_self] at hl'
    obtain rfl := some.inj hl'
    exact hself
  · intro pid vnode b mode hout
    refine holds_set ?_
    simp only [hl, some.injEq, exists_eq_left', FileLock.gives, FileLock.covers]
    refine and_congr_right fun _ => and_congr_right fun hv => and_congr_right fun _ => ?_
    exact hcovers b (hout.resolve_left fun hne => hne hv.symm)

theorem cut_spec (h : Wf t) (hl : t.slot i = some l)
    (hrange : first ≤ last) (hbelow : l.first ≤ last) (habove : first ≤ l.last)
    (hcut : t.cut i l first last = some t') : Cuts t t' i l.vnode first last := by
  unfold cut at hcut
  split at hcut
  · -- The lock goes.
    obtain rfl := some.inj hcut
    refine ⟨h.remove hl, by simp, fun j hj => .inl (set_slot_of_ne hj), ?_⟩
    intro pid vnode b mode hout
    refine holds_set (iff_of_false (by simp) ?_)
    rintro ⟨l', hl', hgives⟩
    obtain rfl := some.inj (hl.symm.trans hl')
    obtain ⟨-, hv, -, hlo, hhi⟩ := hgives
    rcases hout with hne | hlt | hgt
    · exact hne hv.symm
    · omega
    · omega
  · split at hcut
    · -- The first part goes.
      obtain rfl := some.inj hcut
      exact .narrow h hl (by omega) (.inr (Int.lt_succ last)) fun b hb => by omega
    · split at hcut
      · -- The last part goes.
        obtain rfl := some.inj hcut
        exact .narrow h hl (by omega) (.inl (by omega)) fun b hb => by omega
      · -- The lock is split.
        split at hcut
        · simp at hcut
        rename_i hcount
        obtain ⟨j, hfree, hnone⟩ := h.exists_free hcount
        rw [hfree] at hcut
        obtain rfl := some.inj hcut
        have hji : j ≠ i := by
          rintro rfl
          exact nomatch hnone.symm.trans hl
        have hadd : Wf (t.set j (some { l with first := last + 1 }) (t.count + 1)) :=
          h.add hnone (by dsimp only; omega)
        have hslot : (t.set j (some { l with first := last + 1 }) (t.count + 1)).slot i = some l := by
          rw [set_slot_of_ne hji.symm, hl]
        refine ⟨hadd.replace hslot (by dsimp only; omega), ?_, ?_, ?_⟩
        · intro l' hl'
          rw [set_slot_self] at hl'
          obtain rfl := some.inj hl'
          exact .inl (by dsimp only; omega)
        · intro k hk
          rw [set_slot_of_ne hk]
          by_cases hkj : k = j
          · subst hkj
            exact .inr ⟨_, set_slot_self, Int.lt_succ last⟩
          · exact .inl (set_slot_of_ne hkj)
        · intro pid vnode b mode hout
          have hcomm : (t.set j (some { l with first := last + 1 }) (t.count + 1)).set i
              (some { l with last := first - 1 }) (t.count + 1) =
                (t.set i (some { l with last := first - 1 }) t.count).set j
                  (some { l with first := last + 1 }) (t.count + 1) := by
            simp only [set, Function.update_comm hji]
          rw [hcomm, holds_add ((set_slot_of_ne hji).trans hnone), holds_set_iff, holds_iff, hl]
          refine or_assoc.symm.trans (or_congr_left ?_)
          simp only [some.injEq, exists_eq_left', FileLock.gives, FileLock.covers, ← and_or_left]
          refine and_congr_right fun _ => and_congr_right fun hv => and_congr_right fun _ => ?_
          have := hout.resolve_left fun hne => hne hv.symm
          omega

theorem Cuts.within {v : Nat} (h : Cuts t t' i v first last) : t'.Within t := by
  intro pid vnode b mode hb
  by_cases hout : vnode ≠ v ∨ b < first ∨ last < b
  · exact (h.holds pid vnode b mode hout).mp hb
  obtain ⟨j, l, hl, hpid, hv, hmode, hlo, hhi⟩ := hb
  by_cases hj : j = i
  · have := h.self l (hj ▸ hl)
    omega
  · rcases h.other j hj with heq | ⟨l', hl', hlt⟩
    · exact ⟨j, l, heq ▸ hl, hpid, hv, hmode, hlo, hhi⟩
    · obtain rfl := some.inj (hl'.symm.trans hl)
      omega

/-- Nothing is done only when the lock would be split and the table is full. -/
theorem cut_eq_none :
    t.cut i l first last = none ↔ l.first < first ∧ last < l.last ∧ t.count = nrLocks := by
  unfold cut
  constructor
  · intro h
    split at h
    · simp at h
    split at h
    · simp at h
    split at h
    · simp at h
    split_ifs at h with h4
    · exact ⟨by omega, by omega, h4⟩
    · split at h
      · simp at h
      · simp at h
  · rintro ⟨hfirst, hlast, hcount⟩
    rw [if_neg (by omega), if_neg (by omega), if_neg (by omega), if_pos hcount]

end LockTable

/-! ## The scan -/

section Scan

open LockTable

variable {rq : LockRequest} {first last : Int}

/-- A lock that is passed by when the request is to unlock has nothing of the range. -/
theorem clear_unlock (hun : rq.type = .unlock) {l : FileLock} :
    l.clear rq first last = true ↔ ¬ l.Overlaps rq first last := by
  unfold FileLock.clear FileLock.Overlaps
  simp only [hun]
  simp
  omega

/-- Of the slots in the list, none has a lock in the range. -/
def ClearOn (t : LockTable) (rq : LockRequest) (first last : Int) (is : List LockNr) : Prop :=
  ∀ i ∈ is, ∀ l, t.slot i = some l → ¬ l.Overlaps rq first last

/-- The first lock in the range would be split, and the table is full. -/
def FullSplit (t : LockTable) (rq : LockRequest) (first last : Int) (is : List LockNr) : Prop :=
  t.count = nrLocks ∧ ∃ done i rest l, is = done ++ i :: rest ∧ ClearOn t rq first last done ∧
    t.slot i = some l ∧ l.vnode = rq.vnode ∧ l.first < first ∧ last < l.last

/-- What a scan that is to unlock does, when the slots that are not in the list have nothing
of the range: all locks are cut, or the first that would have to be cut is not, or some have
been cut and others not. -/
inductive Unlocks (t : LockTable) (rq : LockRequest) (first last : Int) (is : List LockNr) : Scan → Prop
  | done (t' : LockTable) (empty conflict : Option LockNr) (hwf : Wf t')
      (hclear : ∀ i l, t'.slot i = some l → ¬ l.Overlaps rq first last)
      (hholds : ∀ pid vnode b mode, (vnode ≠ rq.vnode ∨ b < first ∨ last < b) →
        (t'.Holds pid vnode b mode ↔ t.Holds pid vnode b mode)) (hwithin : t'.Within t) :
      Unlocks t rq first last is (.done t' empty conflict)
  | full (hfull : FullSplit t rq first last is) : Unlocks t rq first last is (.stop .enolck t)
  | broken (t' : LockTable) (hwf : Wf t')
      (hclear : ∀ i, i ∉ is → ∀ l, t'.slot i = some l → ¬ l.Overlaps rq first last)
      (hcut : ∃ i l, t.slot i = some l ∧ l.Overlaps rq first last ∧
        ∀ l', t'.slot i = some l' → ¬ l'.Overlaps rq first last)
      (hfull : ¬ FullSplit t rq first last is) (hwithin : t'.Within t) : Unlocks t rq first last is (.stop .enolck t')

theorem FullSplit.cons_iff (hrange : first ≤ last)
    (hhere : ∀ l, t.slot i = some l → ¬ l.Overlaps rq first last) :
    FullSplit t rq first last (i :: rest) ↔ FullSplit t rq first last rest := by
  constructor
  · rintro ⟨hcount, done, j, rest', l, heq, hdone, hl, hv, hlo, hhi⟩
    cases done with
    | nil =>
      obtain ⟨rfl, rfl⟩ := cons.inj heq
      exact absurd ⟨hv, by omega, by omega⟩ (hhere l hl)
    | cons k done =>
      obtain ⟨rfl, rfl⟩ := cons.inj heq
      exact ⟨hcount, done, j, rest', l, rfl, fun k hk => hdone k (mem_cons_of_mem _ hk), hl, hv, hlo, hhi⟩
  · rintro ⟨hcount, done, j, rest', l, rfl, hdone, hl, hv, hlo, hhi⟩
    refine ⟨hcount, i :: done, j, rest', l, rfl, ?_, hl, hv, hlo, hhi⟩
    intro k hk
    rcases mem_cons.mp hk with rfl | hk
    · exact hhere
    · exact hdone k hk

theorem not_fullSplit_of_cut {t1 : LockTable}
    (hl : t.slot i = some l) (hover : l.Overlaps rq first last) (hcut : t.cut i l first last = some t1) :
    ¬ FullSplit t rq first last (i :: rest) := by
  rintro ⟨hcount, done, j, rest', l', heq, hdone, hl', -, hlo, hhi⟩
  cases done with
  | nil =>
    obtain ⟨rfl, rfl⟩ := cons.inj heq
    obtain rfl := some.inj (hl.symm.trans hl')
    exact nomatch hcut.symm.trans (cut_eq_none.mpr ⟨hlo, hhi, hcount⟩)
  | cons k done =>
    obtain ⟨rfl, rfl⟩ := cons.inj heq
    exact hdone i (mem_cons_self ..) l hl hover

theorem scan_unlock (hcmd : rq.cmd ≠ .getlk) (hun : rq.type = .unlock) (hrange : first ≤ last)
    {is : List LockNr} : ∀ (t : LockTable) (empty conflict : Option LockNr), Wf t → is.Nodup →
      (∀ i, i ∉ is → ∀ l, t.slot i = some l → ¬ l.Overlaps rq first last) →
      Unlocks t rq first last is (scan rq first last is t empty conflict) := by
  induction is with
  | nil =>
    intro t empty conflict hwf _ hclear
    exact .done t empty conflict hwf (fun i => hclear i (by simp)) (fun _ _ _ _ _ => Iff.rfl) fun _ _ _ _ hb => hb
  | cons i rest ih =>
    intro t empty conflict hwf hnodup hclear
    obtain ⟨hi, hrest⟩ := nodup_cons.mp hnodup
    -- A slot that has nothing of the range is passed by.
    have hpass : (∀ l, t.slot i = some l → ¬ l.Overlaps rq first last) → ∀ e c,
        Unlocks t rq first last (i :: rest) (scan rq first last rest t e c) := by
      intro hhere e c
      have hrun := ih t e c hwf hrest fun j hj l hl => by
        by_cases hji : j = i
        · exact hhere l (hji ▸ hl)
        · exact hclear j (by simp [hji, hj]) l hl
      generalize scan rq first last rest t e c = out at hrun
      cases hrun with
      | done t' e' c' hwf' hclear' hholds hwithin => exact .done t' e' c' hwf' hclear' hholds hwithin
      | full hf => exact .full ((FullSplit.cons_iff hrange hhere).mpr hf)
      | broken t' hwf' hclear' hcut hf hwithin =>
        exact .broken t' hwf' (fun j hj => hclear' j fun hmem => hj (mem_cons_of_mem _ hmem)) hcut
          (hf ∘ (FullSplit.cons_iff hrange hhere).mp) hwithin
    rw [scan]
    rcases hslot : t.slot i with _ | l
    · exact hpass (by simp [hslot]) _ _
    simp only []
    by_cases hover : l.Overlaps rq first last
    · rw [if_neg fun hc => (clear_unlock hun).mp hc hover, if_neg hcmd, if_neg (by simp [hun])]
      obtain ⟨hv, hbelow, habove⟩ := hover
      rcases hcut : t.cut i l first last with _ | t1
      · obtain ⟨hlo, hhi, hcount⟩ := cut_eq_none.mp hcut
        exact .full ⟨hcount, [], i, rest, l, rfl, by simp [ClearOn], hslot, hv, hlo, hhi⟩
      have hspec := cut_spec hwf hslot hrange hbelow habove hcut
      have hself : ∀ l', t1.slot i = some l' → ¬ l'.Overlaps rq first last := by
        rintro l' hl' ⟨-, h1, h2⟩
        have := hspec.self l' hl'
        omega
      have hclear1 : ∀ j, j ∉ rest → ∀ l', t1.slot j = some l' → ¬ l'.Overlaps rq first last := by
        intro j hj l' hl'
        by_cases hji : j = i
        · exact hself l' (hji ▸ hl')
        · rcases hspec.other j hji with heq | ⟨l2, hl2, hgt⟩
          · exact hclear j (by simp [hji, hj]) l' (heq ▸ hl')
          · obtain rfl := some.inj (hl2.symm.trans hl')
            rintro ⟨-, h1, -⟩
            omega
      have hbroken : ¬ FullSplit t rq first last (i :: rest) := not_fullSplit_of_cut hslot ⟨hv, hbelow, habove⟩ hcut
      have hrun := ih t1 empty (some i) hspec.wf hrest hclear1
      simp only []
      generalize scan rq first last rest t1 empty (some i) = out at hrun
      cases hrun with
      | done t' e' c' hwf' hclear' hholds hwithin =>
        refine .done t' e' c' hwf' hclear' (fun pid vnode b mode hout => ?_) (hwithin.trans hspec.within)
        exact (hholds pid vnode b mode hout).trans (hspec.holds pid vnode b mode (hv ▸ hout))
      | full hf =>
        exact .broken t1 hspec.wf (fun j hj => hclear1 j fun hmem => hj (mem_cons_of_mem _ hmem))
          ⟨i, l, hslot, ⟨hv, hbelow, habove⟩, hself⟩ hbroken hspec.within
      | broken t' hwf' hclear' _ _ hwithin =>
        exact .broken t' hwf' (fun j hj => hclear' j fun hmem => hj (mem_cons_of_mem _ hmem))
          ⟨i, l, hslot, ⟨hv, hbelow, habove⟩, hclear' i hi⟩ hbroken (hwithin.trans hspec.within)
    · rw [if_pos ((clear_unlock hun).mpr hover)]
      refine hpass (fun l' hl' => ?_) _ _
      obtain rfl := some.inj (hslot.symm.trans hl')
      exact hover

/-- A scan that is not to unlock changes nothing, and ends at a free slot if there is one. -/
theorem scan_lock (hun : rq.cmd = .getlk ∨ rq.type ≠ .unlock) (is : List LockNr) :
    ∀ (t : LockTable) (empty conflict : Option LockNr), (∀ i, empty = some i → t.slot i = none) →
      (∃ result, scan rq first last is t empty conflict = .stop result t ∧ result ≠ .ok) ∨
        ∃ e c, scan rq first last is t empty conflict = .done t e c ∧ ∀ i, e = some i → t.slot i = none := by
  induction is with
  | nil => exact fun t empty conflict hfree => .inr ⟨empty, conflict, rfl, hfree⟩
  | cons i rest ih =>
    intro t empty conflict hfree
    rw [scan]
    rcases hslot : t.slot i with _ | l
    · refine ih t _ _ fun j hj => ?_
      cases empty with
      | none => exact some.inj hj ▸ hslot
      | some k => exact hfree j hj
    · simp only []
      by_cases hclear : l.clear rq first last
      · rw [if_pos hclear]
        exact ih t _ _ hfree
      rw [if_neg hclear]
      by_cases hget : rq.cmd = .getlk
      · rw [if_pos hget]
        exact .inr ⟨empty, some i, rfl, hfree⟩
      · rw [if_neg hget, if_pos (hun.resolve_left hget)]
        refine .inl ⟨_, rfl, ?_⟩
        split <;> simp

/-- The lock is in the way of the request. -/
def FileLock.Conflicts (l : FileLock) (rq : LockRequest) (first last : Int) : Prop :=
  l.Overlaps rq first last ∧ l.pid ≠ rq.pid ∧ (l.mode = .wr ∨ rq.type = .lock .wr)

theorem clear_lock {mode : LockMode} (htype : rq.type = .lock mode) {l : FileLock} :
    l.clear rq first last = true ↔ ¬ l.Conflicts rq first last := by
  unfold FileLock.clear FileLock.Conflicts FileLock.Overlaps
  cases mode <;> cases l.mode <;> simp <;> grind

/-- How a scan that is not to unlock comes to its end: no lock is in the way, or F_GETLK has
found the first one that is. -/
theorem scan_done {mode : LockMode} (htype : rq.type = .lock mode) {is : List LockNr} {empty e c : Option LockNr}
    (h : scan rq first last is t empty none = .done t' e c) :
    (c = none ∧ ∀ i ∈ is, ∀ l, t.slot i = some l → ¬ l.Conflicts rq first last) ∨
      (rq.cmd = .getlk ∧ ∃ i l, c = some i ∧ t'.slot i = some l ∧ t.slot i = some l ∧ l.Conflicts rq first last) := by
  induction is generalizing empty with
  | nil =>
    cases h
    exact .inl ⟨rfl, by simp⟩
  | cons i rest ih =>
    rw [scan] at h
    rcases hslot : t.slot i with _ | l
    · rw [hslot] at h
      refine (ih h).imp (fun hc => ⟨hc.1, fun j hj l hl => ?_⟩) id
      rcases mem_cons.mp hj with rfl | hj
      · exact nomatch hslot.symm.trans hl
      · exact hc.2 j hj l hl
    · rw [hslot] at h
      simp only [] at h
      by_cases hclear : l.clear rq first last
      · rw [if_pos hclear] at h
        refine (ih h).imp (fun hc => ⟨hc.1, fun j hj l' hl' => ?_⟩) id
        rcases mem_cons.mp hj with rfl | hj
        · obtain rfl := some.inj (hslot.symm.trans hl')
          exact (clear_lock htype).mp hclear
        · exact hc.2 j hj l' hl'
      · rw [if_neg hclear] at h
        split at h
        · rename_i hget
          cases h
          exact .inr ⟨hget, i, l, rfl, hslot, hslot, not_not.mp fun hno => hclear ((clear_lock htype).mpr hno)⟩
        · rw [if_pos (by simp [htype])] at h
          simp at h

end Scan

/-! ## Requests -/

theorem LockRequest.range_le (h : rq.range = some (first, last)) : first ≤ last := by
  rw [LockRequest.range] at h
  rcases hbase : rq.base with _ | base
  · simp [hbase] at h
  · simp only [hbase, ite_none_left_eq_some, some.injEq, Prod.mk.injEq] at h
    obtain ⟨-, hlast, rfl, rfl⟩ := h
    exact not_lt.mp hlast

/-- How a request ends. -/
inductive Outcome (t : LockTable) (rq : LockRequest) : LockResult × LockTable → Prop
  | refused (result : LockResult) (hok : result ≠ .ok) (hfull : rq.type = .unlock → result ≠ .enolck) :
      Outcome t rq (result, t)
  | read (hcmd : rq.cmd = .getlk) : Outcome t rq (.ok, t)
  | locked (first last : Int) (mode : LockMode) (i : LockNr) (hcmd : rq.cmd ≠ .getlk)
      (htype : rq.type = .lock mode) (hrange : rq.range = some (first, last)) (hfree : t.slot i = none)
      (hclear : ∀ j l, t.slot j = some l → ¬ l.Conflicts rq first last) :
      Outcome t rq (.ok, t.set i (some ⟨mode, rq.pid, rq.vnode, first, last⟩) (t.count + 1))
  | unlocked (first last : Int) (t' : LockTable) (hcmd : rq.cmd ≠ .getlk) (htype : rq.type = .unlock)
      (hrange : rq.range = some (first, last)) (hwf : t'.Wf)
      (hclear : ∀ i l, t'.slot i = some l → ¬ l.Overlaps rq first last)
      (hholds : ∀ pid vnode b mode, (vnode ≠ rq.vnode ∨ b < first ∨ last < b) →
        (t'.Holds pid vnode b mode ↔ t.Holds pid vnode b mode)) (hwithin : t'.Within t) : Outcome t rq (.ok, t')
  | full (first last : Int) (htype : rq.type = .unlock) (hrange : rq.range = some (first, last))
      (hfull : FullSplit t rq first last (List.finRange nrLocks)) : Outcome t rq (.enolck, t)
  | broken (first last : Int) (t' : LockTable) (htype : rq.type = .unlock)
      (hrange : rq.range = some (first, last)) (hwf : t'.Wf) (hne : t' ≠ t)
      (hfull : ¬ FullSplit t rq first last (List.finRange nrLocks)) (hwithin : t'.Within t) : Outcome t rq (.enolck, t')

/-- A request is refused, or the table is scanned. -/
theorem lockOp_scan {t : LockTable} {rq : LockRequest} :
    (∃ result, result ≠ .ok ∧ result ≠ .enolck ∧ lockOp t rq = (result, t)) ∨
      ∃ first last, rq.range = some (first, last) ∧ rq.type ≠ .other ∧ ¬ (rq.cmd = .getlk ∧ rq.type = .unlock) ∧
        lockOp t rq =
          match scan rq first last (List.finRange nrLocks) t none none with
          | .stop result t1 => (result, t1)
          | .done t1 empty _ => finish rq first last t1 empty := by
  unfold lockOp
  split
  · exact .inl ⟨_, by simp, by simp, rfl⟩
  split
  · exact .inl ⟨_, by simp, by simp, rfl⟩
  rename_i hother
  split
  · exact .inl ⟨_, by simp, by simp, rfl⟩
  rename_i hget
  iterate 3
    split
    · exact .inl ⟨_, by simp, by simp, rfl⟩
  rcases rq.range with _ | ⟨first, last⟩
  · exact .inl ⟨_, by simp, by simp, rfl⟩
  · exact .inr ⟨first, last, rfl, hother, hget, rfl⟩

theorem lockOp_outcome (hwf : t.Wf) (rq : LockRequest) : Outcome t rq (lockOp t rq) := by
  rcases lockOp_scan with ⟨result, hok, hlock, heq⟩ | ⟨first, last, hrange, hother, hget, heq⟩ <;> rw [heq]
  · exact .refused result hok fun _ => hlock
  by_cases hun : rq.type = .unlock
  · -- The request is to unlock.
    have hcmd : rq.cmd ≠ .getlk := fun hc => hget ⟨hc, hun⟩
    have hscan := scan_unlock hcmd hun (LockRequest.range_le hrange) t none none hwf
      (nodup_finRange _) fun i hi => absurd (mem_finRange i) hi
    generalize scan rq first last (finRange nrLocks) t none none = out at hscan
    cases hscan with
    | done t' empty conflict hwf' hclear hholds hwithin =>
      simp only [finish, if_neg hcmd, hun]
      exact .unlocked first last t' hcmd hun hrange hwf' hclear hholds hwithin
    | full hfull => exact .full first last hun hrange hfull
    | broken t' hwf' _ hcut hfull hwithin =>
      obtain ⟨i, l, hl, hover, hnot⟩ := hcut
      exact .broken first last t' hun hrange hwf' (fun heq => hnot l (heq ▸ hl) hover) hfull hwithin
  · rcases scan_lock (.inr hun) (finRange nrLocks) t none none (by simp) with
      ⟨result, hscan, hok⟩ | ⟨empty, conflict, hscan, hfree⟩
    · rw [hscan]
      exact .refused result hok fun h => absurd h hun
    rw [hscan]
    simp only [finish]
    by_cases hcmd : rq.cmd = .getlk
    · rw [if_pos hcmd]
      exact .read hcmd
    rw [if_neg hcmd]
    rcases htype : rq.type with mode | _ | _
    · cases empty with
      | none => exact .refused _ (by simp) fun h => absurd h hun
      | some i =>
        refine .locked first last mode i hcmd htype hrange (hfree i rfl) fun j l hl => ?_
        rcases scan_done htype hscan with ⟨-, hclear⟩ | ⟨hget, -⟩
        · exact hclear j (mem_finRange j) l hl
        · exact absurd hget hcmd
    · exact absurd htype hun
    · exact absurd htype hother

/-- The condition on a request: a process that sets a lock has no lock with another mode in the
range; nobody else has a lock in the range that is unlocked; and if locks run out on the way,
they run out at the first lock in the range. -/
def Exact (t : LockTable) (rq : LockRequest) : Prop :=
  ∀ first last, rq.range = some (first, last) →
    ((lockOp t rq).1 = .ok → rq.cmd ≠ .getlk → ∀ i l, t.slot i = some l → l.Overlaps rq first last →
      (∀ mode, rq.type = .lock mode → l.pid = rq.pid → l.mode = mode) ∧
        (rq.type = .unlock → l.pid = rq.pid)) ∧
    (rq.type = .unlock → (lockOp t rq).1 = .enolck → FullSplit t rq first last (List.finRange nrLocks))

/-- A lock that overlaps a range has a byte in it. -/
theorem FileLock.Overlaps.exists_byte
    (h : l.Overlaps rq first last) (hl : l.first ≤ l.last) (hrange : first ≤ last) :
    ∃ b, l.gives l.pid rq.vnode b l.mode ∧ first ≤ b ∧ b ≤ last := by
  obtain ⟨hv, hlo, hhi⟩ := h
  exact ⟨max l.first first, ⟨rfl, hv, rfl, by unfold covers; omega⟩, by omega, by omega⟩

theorem FileLock.gives.overlaps {b : Int}
    (h : l.gives pid rq.vnode b mode) (hlo : first ≤ b) (hhi : b ≤ last) :
    l.Overlaps rq first last := by
  obtain ⟨-, hv, -, h1, h2⟩ := h
  exact ⟨hv, by omega, by omega⟩

section Requests

variable {t : LockTable} {rq : LockRequest} {first last : Int}

theorem updates_locked_iff (hwf : t.Wf) (hcmd : rq.cmd ≠ .getlk)
    (htype : rq.type = .lock mode) (hrange : rq.range = some (first, last)) (hfree : t.slot i = none) :
    Updates rq t (.ok, t.set i (some ⟨mode, rq.pid, rq.vnode, first, last⟩) (t.count + 1)) ↔
      ∀ j l, t.slot j = some l → l.Overlaps rq first last → l.pid = rq.pid → l.mode = mode := by
  rw [Updates, if_pos ⟨rfl, hcmd⟩]
  simp only [LockTable.holds_add hfree, htype]
  constructor
  · rintro ⟨first', last', hrange', hupd⟩ j l hl hover hpid
    obtain ⟨rfl, rfl⟩ := Prod.mk.inj (some.inj (hrange.symm.trans hrange'))
    obtain ⟨b, hgives, hlo, hhi⟩ := hover.exists_byte (hwf.nonempty j l hl) (LockRequest.range_le hrange)
    have hmode := (hupd l.pid rq.vnode b l.mode).mp (.inr ⟨j, l, hl, hgives⟩)
    rw [if_pos ⟨hpid, rfl, hlo, hhi⟩] at hmode
    exact (LockType.lock.inj hmode).symm
  · intro hown
    refine ⟨first, last, hrange, fun pid vnode b mode' => ?_⟩
    split
    · rename_i hin
      obtain ⟨rfl, rfl, hlo, hhi⟩ := hin
      constructor
      · rintro (⟨-, -, hmode, -⟩ | ⟨j, l, hl, hgives⟩)
        · exact congrArg LockType.lock hmode
        · exact congrArg LockType.lock ((hown j l hl (hgives.overlaps hlo hhi) hgives.1).symm.trans hgives.2.2.1)
      · intro hmode
        exact .inl ⟨rfl, rfl, LockType.lock.inj hmode, hlo, hhi⟩
    · rename_i hout
      constructor
      · rintro (⟨hpid, hv, -, hlo, hhi⟩ | h)
        · exact absurd ⟨hpid.symm, hv.symm, hlo, hhi⟩ hout
        · exact h
      · exact .inr

theorem updates_unlocked_iff (hwf : t.Wf) (hcmd : rq.cmd ≠ .getlk)
    (htype : rq.type = .unlock) (hrange : rq.range = some (first, last))
    (hclear : ∀ i l, t'.slot i = some l → ¬ l.Overlaps rq first last)
    (hholds : ∀ pid vnode b mode, (vnode ≠ rq.vnode ∨ b < first ∨ last < b) →
      (t'.Holds pid vnode b mode ↔ t.Holds pid vnode b mode)) :
    Updates rq t (.ok, t') ↔ ∀ j l, t.slot j = some l → l.Overlaps rq first last → l.pid = rq.pid := by
  -- In the range nothing is left.
  have hnone : ∀ pid b mode, first ≤ b → b ≤ last → ¬ t'.Holds pid rq.vnode b mode := by
    rintro pid b mode hlo hhi ⟨i, l, hl, hgives⟩
    exact hclear i l hl (hgives.overlaps hlo hhi)
  rw [Updates, if_pos ⟨rfl, hcmd⟩]
  simp only [htype, reduceCtorEq]
  constructor
  · rintro ⟨first', last', hrange', hupd⟩ j l hl hover
    obtain ⟨rfl, rfl⟩ := Prod.mk.inj (some.inj (hrange.symm.trans hrange'))
    obtain ⟨b, hgives, hlo, hhi⟩ := hover.exists_byte (hwf.nonempty j l hl) (LockRequest.range_le hrange)
    by_contra hpid
    have hkept := hupd l.pid rq.vnode b l.mode
    rw [if_neg fun h => hpid h.1] at hkept
    exact hnone l.pid b l.mode hlo hhi (hkept.mpr ⟨j, l, hl, hgives⟩)
  · intro hown
    refine ⟨first, last, hrange, fun pid vnode b mode => ?_⟩
    split
    · rename_i hin
      obtain ⟨rfl, rfl, hlo, hhi⟩ := hin
      exact iff_of_false (hnone _ b mode hlo hhi) id
    · rename_i hout
      by_cases hin : vnode = rq.vnode ∧ first ≤ b ∧ b ≤ last
      · obtain ⟨rfl, hlo, hhi⟩ := hin
        refine iff_of_false (hnone pid b mode hlo hhi) ?_
        rintro ⟨j, l, hl, hgives⟩
        exact hout ⟨hgives.1.symm.trans (hown j l hl (hgives.overlaps hlo hhi)), rfl, hlo, hhi⟩
      · exact hholds pid vnode b mode (by omega)

theorem updates_iff_exact (hwf : t.Wf) (rq : LockRequest) : Updates rq t (lockOp t rq) ↔ Exact t rq := by
  have hout := lockOp_outcome hwf rq
  unfold Exact
  generalize lockOp t rq = out at hout
  cases hout with
  | refused result hok hfull =>
    rw [Updates, if_neg fun h => hok h.1]
    exact iff_of_true rfl fun _ _ _ => ⟨fun h => absurd h hok, fun hun h => absurd h (hfull hun)⟩
  | read hcmd =>
    rw [Updates, if_neg fun h => h.2 hcmd]
    exact iff_of_true rfl fun _ _ _ => ⟨fun _ h => absurd hcmd h, fun _ h => nomatch h⟩
  | locked first last mode i hcmd htype hrange hfree =>
    rw [updates_locked_iff hwf hcmd htype hrange hfree]
    simp [hrange, hcmd, htype]
  | unlocked first last t' hcmd htype hrange _ hclear hholds =>
    rw [updates_unlocked_iff hwf hcmd htype hrange hclear hholds]
    simp [hrange, hcmd, htype]
  | full first last htype hrange hfull =>
    refine iff_of_true rfl fun first' last' hrange' => ⟨fun h => absurd h (by simp), fun _ _ => ?_⟩
    obtain ⟨rfl, rfl⟩ := Prod.mk.inj (some.inj (hrange.symm.trans hrange'))
    exact hfull
  | broken first last t' htype hrange hwf' hne hfull =>
    exact iff_of_false hne fun h => hfull ((h first last hrange).2 htype rfl)

end Requests

/-! ## Runs -/

/-- The table at the start. -/
def LockTable.empty : LockTable := ⟨fun _ => none, 0⟩

/-- A request, or a process that closes a file. -/
inductive LockStep : LockTable → LockTable → Prop
  | request (t : LockTable) (rq : LockRequest) : LockStep t (lockOp t rq).2
  | close (t : LockTable) (pid vnode : Nat) : LockStep t (releaseLocks t pid vnode)

/-- The tables of all runs. -/
def LockTable.Reachable (t : LockTable) : Prop := ReflTransGen LockStep .empty t

theorem LockTable.wf_empty : LockTable.empty.Wf where
  nonempty i l h := absurd h (by simp [LockTable.empty])
  count := by
    rfl

theorem LockTable.Wf.lockOp (hwf : t.Wf) (rq : LockRequest) : (lockOp t rq).2.Wf := by
  have hout := lockOp_outcome hwf rq
  generalize Vfs.lockOp t rq = out at hout
  cases hout with
  | refused | read | full => exact hwf
  | locked first last mode i _ _ hrange hfree => exact hwf.add hfree (LockRequest.range_le hrange)
  | unlocked _ _ _ _ _ _ hwf' => exact hwf'
  | broken _ _ _ _ _ hwf' => exact hwf'

/-- What the table has and every lock that is removed keeps is there after a close. -/
theorem releaseLocks_rule {P : LockTable → Prop} (hP : P t)
    (hstep : ∀ (u : LockTable) (i : LockNr) (l : FileLock), P u → u.slot i = some l → P (u.set i none (u.count - 1)))
    (pid vnode : Nat) : P (releaseLocks t pid vnode) := by
  unfold releaseLocks
  induction finRange nrLocks generalizing t with
  | nil => exact hP
  | cons i rest ih =>
    rw [foldl_cons]
    refine ih ?_
    rcases hslot : t.slot i with _ | l
    · exact hP
    · simp only []
      split
      · exact hstep t i l hP hslot
      · exact hP

theorem LockTable.Reachable.wf (h : t.Reachable) : t.Wf := by
  induction h with
  | refl => exact LockTable.wf_empty
  | tail _ hstep ih =>
    cases hstep with
    | request rq => exact ih.lockOp rq
    | close pid vnode => exact releaseLocks_rule ih (fun _ _ _ hu hl => hu.remove hl) pid vnode

/-- A request for the bytes 0 to 9 of file 1. -/
def sampleRequest (pid : Nat) (type : LockType) : LockRequest where
  cmd := .setlk
  pid := pid
  copied := true
  type := type
  whence := .set
  start := 0#32
  len := 10#32
  readable := true
  writable := true
  posHi := 0#32
  posLo := 0#32
  vnode := 1
  regular := true
  size := 100#32

/-- The table when process 10 has locked the bytes. -/
def sampleTable : LockTable := (lockOp .empty (sampleRequest 10 (.lock .wr))).2

end Minix.Vfs
