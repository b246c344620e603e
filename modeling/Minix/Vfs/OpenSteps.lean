/-
  Vfs/OpenSteps.lean --- the steps of `common_open` and `do_pipe`.

  Until an open has succeeded or has been undone, the state differs from the one before
  it in one descriptor, one filp and one vnode (`opening`).
-/
import Minix.Vfs.FileSteps

set_option autoImplicit false

namespace Minix.Vfs.State

open Foundation Function Option State

variable {p : ProcNr} {fd : Fd} {n m : FilpNr} {s1 : State} {v : VnodeNr} {x : Vnode}
  {pfs : Nat → Option PfsInode} {log : List Event} {why : BlockedOn} {saved : SavedCall}

variable {s s' s'' : State} {C : Cause → Prop}

/-! ## An open that is being done -/

theorem getFd_eq_ok {start : Nat} {readable writable : Bool}
    (h : s.getFd p start readable writable = .ok (fd, n, s1)) : (s.proc p).fds fd = none ∧ (s.proc p).inuse fd = false ∧
      (s.filp n).count = 0 ∧ s1 = s.setFilp n ((s.filp n).fresh readable writable) := by
  unfold getFd at h
  split at h
  · simp at h
  rename_i hfd
  split at h
  · simp at h
  rename_i hn
  obtain ⟨rfl, rfl, rfl⟩ := h
  have h1 := List.find?_some hfd
  have h2 := List.find?_some hn
  simp only [Bool.and_eq_true, Bool.not_eq_true', decide_eq_true_eq, isNone_iff_eq_none] at h1 h2
  exact ⟨h1.1.2, h1.2, h2, rfl⟩

/-- A process that is not suspended, with a descriptor and a filp that are free. -/
structure Room (s : State) (p : ProcNr) (fd : Fd) (n : FilpNr) : Prop where
  idle : s.Idle p
  fds : (s.proc p).fds fd = none
  inuse : (s.proc p).inuse fd = false
  count : (s.filp n).count ≤ 0

/-- The state with the descriptor, the filp and the vnode of an open. -/
def opening (s : State) (p : ProcNr) (fd : Fd) (n : FilpNr) (v : VnodeNr) (x : Vnode) (f : Filp)
    (pfs : Nat → Option PfsInode) (log : List Event) : State :=
  ((s.withVnode v x pfs log).setFilp n f).setFd p fd (some n) true

section Opening

variable (s) (p : ProcNr) (fd : Fd) (n : FilpNr) (v : VnodeNr) (x y : Vnode) (f g : Filp)
  (pfs : Nat → Option PfsInode) (log : List Event)

theorem opening_filp : (s.opening p fd n v x f pfs log).filp n = f := update_self ..

theorem opening_filp_of_ne (h : m ≠ n) : (s.opening p fd n v x f pfs log).filp m = s.filp m :=
  update_of_ne h ..

theorem opening_vnode : (s.opening p fd n v x f pfs log).vnode v = x := update_self ..

theorem opening_setFilp : (s.opening p fd n v x f pfs log).setFilp n g = s.opening p fd n v x g pfs log := by
  unfold opening setFilp setFd setProc withVnode
  simp only [update_idem]

theorem opening_setVnode : (s.opening p fd n v x f pfs log).setVnode v y = s.opening p fd n v y f pfs log := by
  unfold opening setVnode setFilp setFd setProc withVnode
  simp only [update_idem]

theorem claim_eq_opening (flags : OpenFlags) : (s.setVnode v x).claim p fd n v flags =
    s.opening p fd n v x { s.filp n with
      count := 1, vnode := some v, nonblock := flags.nonblock, append := flags.append, reopen := flags.reopen } s.pfs s.log :=
  rfl

end Opening

/-- The descriptor is given back: the processes are as before. -/
theorem setFd_setFd_none (hfd : (s.proc p).fds fd = none) (hinuse : (s.proc p).inuse fd = false)
    (o : Option FilpNr) (b : Bool) : (s.setFd p fd o b).setFd p fd none false = s := by
  have hfds : update (s.proc p).fds fd none = (s.proc p).fds := by
    rw [← hfd, update_eq_self]
  have hin : update (s.proc p).inuse fd false = (s.proc p).inuse := by
    rw [← hinuse, update_eq_self]
  unfold setFd setProc
  simp only [update_self, update_idem, hfds, hin]
  rw [update_eq_self]

/-- An open is undone. -/
theorem undoOpen_opening (hroom : s.Room p fd n) {v : VnodeNr} {x : Vnode} {f : Filp} {pfs : Nat → Option PfsInode} {log : List Event} :
    ∃ y pfs', (s.opening p fd n v x f pfs log).undoOpen p fd n v =
        (s.withVnode v y pfs' log).setFilp n { f with count := 0, vnode := none } ∧
      ((1 < x.refCount ∧ y = { x with refCount := x.refCount - 1 } ∧ pfs' = pfs) ∨
        (¬ 1 < x.refCount ∧ y = { x with refCount := 0, pipe := false, sdev := none, mapped := none } ∧
          ∀ j, pfs' j ≠ pfs j → x.Uses j)) := by
  have hset : (s.opening p fd n v x f pfs log).setFd p fd none false = (s.withVnode v x pfs log).setFilp n f :=
    setFd_setFd_none (s := (s.withVnode v x pfs log).setFilp n f) hroom.fds hroom.inuse (some n) true
  have hcount : ((s.withVnode v x pfs log).setFilp n f).setCount n 0 = (s.withVnode v x pfs log).setFilp n { f with count := 0 } := by
    unfold setCount setFilp
    simp only [update_self, update_idem]
  unfold undoOpen dropFilp
  rw [hset, hcount]
  have hput := ((s.withVnode v x pfs log).setFilp n { f with count := 0 }).putVnode_put v
  have hx : ((s.withVnode v x pfs log).setFilp n { f with count := 0 }).vnode v = x := update_self ..
  -- The vnode is written twice, and so is the filp.
  have hfile : ∀ y pfs', (setVnode { (s.withVnode v x pfs log).setFilp n { f with count := 0 } with pfs := pfs' } v y).setFile n none =
      (s.withVnode v y pfs' log).setFilp n { f with count := 0, vnode := none } := by
    intro y pfs'
    unfold setFile setFilp setVnode withVnode
    simp only [update_self, update_idem]
  generalize putVnode ((s.withVnode v x pfs log).setFilp n { f with count := 0 }) v = t at hput
  cases hput with
  | less hone =>
    rw [hx] at hone ⊢
    exact ⟨_, pfs, hfile _ pfs, .inl ⟨hone, rfl, rfl⟩⟩
  | last hone pfs' hpfs =>
    rw [hx] at hone hpfs ⊢
    exact ⟨_, pfs', hfile _ pfs', .inr ⟨hone, rfl, hpfs⟩⟩

/-- A free filp gets a vnode, and a descriptor of the process. -/
theorem Refs.steps_end (h : s.Refs) (hp : s.Idle p) (hn : (s.filp n).count ≤ 0) {f : Filp} (hf : Opens f v)
    (hslack : (s.held v : Int) + 1 ≤ (s.vnode v).refCount) : Steps C s ((s.setFilp n f).setFd p fd (some n) true) := by
  have hhold : Steps C s (s.setFilp n f) := h.steps_hold hn hf hslack
  refine hhold.trans ((hhold.refs h).steps_setFd hp ?_ true)
  have hzero : (s.setFilp n f).busyRefs n = 0 := by
    refine tally_eq_zero.mpr fun d => ?_
    rw [setFilp_filp_self]
    simp [hf.selBusy]
  have hfd : (s.setFilp n f).fdRefs n = 0 := fdRefs_eq_zero h hn
  rw [hzero, hfd, setFilp_filp_self, hf.count]
  simp

/-- The steps of an open that succeeds. -/
theorem Refs.steps_opening (h : s.Refs) (hroom : s.Room p fd n) {f : Filp} (hx : s.Got v x pfs log) (hone : x.refCount = (s.vnode v).refCount + 1)
    (hf : Opens f v) :
    Steps C s (s.opening p fd n v x f pfs log) := by
  have hgot := h.steps_got (C := C) hx
  refine hgot.trans ((hgot.refs h).steps_end hroom.idle hroom.count hf ?_)
  have hold := h.held v
  rw [show (s.withVnode v x pfs log).vnode v = x from update_self ..]
  show (s.held v : Int) + 1 ≤ x.refCount
  omega

theorem getVnode_eq_ok {info : NodeInfo} (h : s.getVnode info = .ok (v, s1)) :
    (0 < (s.vnode v).refCount ∧ s1 = s.setVnode v { s.vnode v with refCount := (s.vnode v).refCount + 1 }) ∨
      ((s.vnode v).refCount = 0 ∧ s1 = s.setVnode v (info.fill (s.vnode v))) := by
  unfold getVnode at h
  split at h
  · rename_i v' hv
    obtain ⟨rfl, rfl⟩ := h
    have := List.find?_some hv
    simp only [Bool.and_eq_true, decide_eq_true_eq] at this
    exact .inl ⟨this.1.1, rfl⟩
  · split at h
    · simp at h
    rename_i hv
    obtain ⟨rfl, rfl⟩ := h
    have := List.find?_some hv
    simp only [decide_eq_true_eq] at this
    exact .inr ⟨this, rfl⟩

/-- The vnode of an open that is not done yet. -/
inductive Trial (s : State) (v : VnodeNr) : Vnode → (Nat → Option PfsInode) → List Event → Prop
  | old (hv : 0 < (s.vnode v).refCount) : Trial s v { s.vnode v with refCount := (s.vnode v).refCount + 1 } s.pfs s.log
  | new (x : Vnode) (d : Nat) (hv : (s.vnode v).refCount = 0) (hx : x.refCount = 1 ∧ x.fs = .other d ∧ x.mapped = none) :
      Trial s v x s.pfs s.log
  | mapped (x : Vnode) (d i : Nat) (hv : (s.vnode v).refCount = 0)
      (hx : x.refCount = 1 ∧ x.fs = .other d ∧ x.mapped = some i) (hi : s.pfs i = none) :
      Trial s v x (Function.update s.pfs i (some ⟨0, fun _ => 0#8⟩)) (.pfsNew i :: s.log)

/-- An open that fails leaves nothing but a free filp and a free vnode that have been
written. -/
theorem Refs.steps_failed (h : s.Refs) (hroom : s.Room p fd n)
    (hx : s.Trial v x pfs log) {f : Filp} :
    Steps C s ((s.opening p fd n v x f pfs log).undoOpen p fd n v) := by
  obtain ⟨y, pfs', heq, hcases⟩ := undoOpen_opening hroom
  rw [heq]
  -- The vnode is free again, or it is as before.
  have hback : (y = s.vnode v ∧ pfs' = s.pfs ∧ log = s.log) ∨ s.Got v y pfs' log := by
    cases hx with
    | old hv =>
      rcases hcases with ⟨-, hy, hpfs⟩ | ⟨hone, -, -⟩
      · refine .inl ⟨?_, hpfs, rfl⟩
        rw [hy]
        simp only [add_sub_cancel_right]
      · simp only [not_lt] at hone
        omega
    | new _ d hv hx =>
      rcases hcases with ⟨hone, -, -⟩ | ⟨-, hy, hpfs⟩
      · omega
      refine .inr (.file y d pfs' s.log hv (by rw [hy]) (.inr (by rw [hy])) (by rw [hy]; exact ⟨rfl, rfl, hx.2.1⟩)
        (.inl ⟨funext fun j => ?_, rfl⟩))
      by_contra hj
      rcases hpfs j hj with hm | ⟨hfs, -⟩
      · exact nomatch hx.2.2.symm.trans hm
      · exact nomatch hx.2.1.symm.trans hfs
    | mapped _ d i hv hx hi =>
      rcases hcases with ⟨hone, -, -⟩ | ⟨-, hy, hpfs⟩
      · omega
      refine .inr (.file y d pfs' _ hv (by rw [hy]) (.inr (by rw [hy])) (by rw [hy]; exact ⟨rfl, rfl, hx.2.1⟩)
        (.inr ⟨i, hi, fun j hj => ?_, rfl⟩))
      rw [← show update s.pfs i (some ⟨0, fun _ => 0#8⟩) j = s.pfs j from update_of_ne hj ..]
      by_contra hne
      rcases hpfs j hne with hm | ⟨hfs, -⟩
      · exact hj (some.inj (hm.symm.trans hx.2.2))
      · exact nomatch hx.2.1.symm.trans hfs
  rcases hback with ⟨rfl, rfl, rfl⟩ | hgot
  · rw [withVnode, update_eq_self]
    exact h.steps_fresh hroom.count rfl
  · have hsteps := h.steps_got (C := C) hgot
    exact hsteps.trans ((hsteps.refs h).steps_fresh hroom.count rfl)

/-! ## Named pipes -/

theorem savedVnode_setFd (s : State) (hn : (s.proc p).fds fd = some n)
    (hvnode : (s.filp m).vnode = (s.filp n).vnode) {b : Bool} : (s.setFd p fd (some m) b).savedVnode p = s.savedVnode p := by
  unfold savedVnode
  rw [setFd_proc_self]
  rcases fdOf (s.proc p).saved.fd with _ | k
  · rfl
  by_cases hk : k = fd
  · subst hk
    simp only [bind_some, update_self, hn]
    exact hvnode
  · simp only [bind_some, update_of_ne hk]
    rfl

/-- A descriptor is moved from one filp to another for the same vnode. -/
theorem Refs.steps_share (h : s.Refs) (hlive : s.live p = true)
    (hn : (s.proc p).fds fd = some n) (hcount : (s.filp n).count = 1) (hnv : (s.filp n).vnode = some v) (hmn : m ≠ n)
    (hm : (s.filp m).count ≠ 0) (hmv : (s.filp m).vnode = some v) {flags : OpenFlags} :
    Steps C s ((((s.setCount n 0).setFd p fd (some m) true).setFilp m { s.filp m with
      count := (s.filp m).count + 1, vnode := some v, nonblock := flags.nonblock, append := true,
      reopen := flags.reopen }).putVnode v) := by
  have hmpos : 0 < (s.filp m).count := by
    have := h.counted m
    omega
  generalize hf : ({ s.filp m with
      count := (s.filp m).count + 1, vnode := some v, nonblock := flags.nonblock, append := true,
      reopen := flags.reopen } : Filp) = f
  have hfs : f.count = (s.filp m).count + 1 ∧ f.vnode = some v ∧ f.pos = (s.filp m).pos ∧ f.selBusy = (s.filp m).selBusy := by
    rw [← hf]
    exact ⟨rfl, rfl, rfl, rfl⟩
  obtain ⟨hfc, hfv, hfp, hfb⟩ := hfs
  have hold := h.busy m hmpos
  -- The other filp is counted once more.
  have h1 : Steps C s (s.setFilp m f) := h.steps_recount hmpos ⟨hfv.trans hmv.symm, hfp, hfb⟩ (by omega)
  have hrefs1 := h1.refs h
  have hn1 : (s.setFilp m f).filp n = s.filp n := setFilp_filp_of_ne hmn.symm
  -- The descriptor is moved.
  generalize ht : (s.setFilp m f).setFd p fd (some m) true = t
  have h2 : Steps C (s.setFilp m f) t := by
    rw [← ht]
    refine .single (.quiet .setFd) (hrefs1.setFd (.inl hlive) (fun k hk => ?_) ?_)
    · obtain rfl : m = k := some.inj hk
      rw [busyRefs_setFilp hfb, setFilp_filp_self, hfc]
      show (s.fdRefs m : Int) + s.busyRefs m + 1 ≤ (s.filp m).count + 1
      omega
    · have hvnode : ((s.setFilp m f).filp m).vnode = ((s.setFilp m f).filp n).vnode := by
        rw [hn1, setFilp_filp_self, hfv, hnv]
      refine (hrefs1.waits p hlive).congr ?_ ?_ ?_ ((s.setFilp m f).savedVnode_setFd hn hvnode) fun _ _ => rfl
      all_goals rw [setFd_proc_self]
  have hzero : t.fdRefs n = 0 := by
    have hset := (s.setFilp m f).fdRefs_setFd p fd (some m) true n
    have hcnt := hrefs1.counted n
    rw [if_pos (show ((s.setFilp m f).proc p).fds fd = some n from hn), if_neg (by simp [hmn]), ht] at hset
    rw [hn1] at hcnt
    omega
  have hn2 : t.filp n = s.filp n := ht ▸ hn1
  -- The filp of the open goes, with its reference to the vnode.
  have hstate : ((s.setCount n 0).setFd p fd (some m) true).setFilp m f = t.setCount n 0 := by
    rw [setCount, setCount, hn2, ← ht]
    unfold State.setFilp State.setFd State.setProc
    rw [update_comm hmn]
  rw [hstate]
  exact h1.trans (h2.trans ((h2.refs hrefs1).steps_drop hzero (by rw [hn2]; omega) (hn2 ▸ hnv) fun i => .inl rfl))

/-- The filp of a named pipe. -/
def fifoFilp (f : Filp) (flags : OpenFlags) : Filp :=
  { f with append := true, nonblock := flags.nonblock, reopen := flags.reopen }

section Fifo

variable {p : ProcNr} {fd : Fd} {n : FilpNr} {v : VnodeNr} {x : Vnode} {f : Filp} {flags : OpenFlags} {env : OpenEnv}
  {pfs : Nat → Option PfsInode} {log : List Event}

theorem Opens.fifo (hf : Opens f v) : Opens (fifoFilp f flags) v := ⟨hf.count, hf.vnode, hf.selBusy, hf.pos⟩

/-- A named pipe that is open already. -/
theorem fifoStart_open {i : Nat} (hmapped : x.mapped = some i) (hpipe : x.pipe = true) (hone : x.refCount ≠ 1) :
    (s.opening p fd n v x f pfs log).fifoStart n v flags env = (0, s.opening p fd n v x (fifoFilp f flags) pfs log) := by
  obtain ⟨fs, inode, mapped, type, size, refCount, pipe, rdPos, wrPos, sdev⟩ := x
  subst hmapped hpipe
  unfold fifoStart mapVnode
  simp only [opening_vnode, ne_eq, not_true_eq_false, if_false, opening_setVnode, hone, opening_filp]
  exact Prod.ext rfl (opening_setFilp ..)

theorem mapVnode_opening (hmapped : x.mapped = none) (newnode : Option Nat) :
    (s.opening p fd n v x f s.pfs s.log).mapVnode v newnode = (enospc, s.opening p fd n v x f s.pfs s.log) ∨
      ∃ i, s.pfs i = none ∧ (s.opening p fd n v x f s.pfs s.log).mapVnode v newnode =
        (0, s.opening p fd n v { x with mapped := some i } f (Function.update s.pfs i (some ⟨0, fun _ => 0#8⟩))
          (.pfsNew i :: s.log)) := by
  unfold mapVnode pfsNewnode
  rw [opening_vnode, hmapped]
  rcases hnew : newnode.filter fun i => ((s.opening p fd n v x f s.pfs s.log).pfs i).isNone with _ | i
  · exact .inl rfl
  refine .inr ⟨i, isNone_iff_eq_none.mp (filter_eq_some_iff.mp hnew).2, ?_⟩
  have hstart : ({ setPfs (s.opening p fd n v x f s.pfs s.log) i (some ⟨0, fun _ => 0#8⟩) with
      log := .pfsNew i :: (s.opening p fd n v x f s.pfs s.log).log } : State) =
        s.opening p fd n v x f (update s.pfs i (some ⟨0, fun _ => 0#8⟩)) (.pfsNew i :: s.log) := rfl
  simp only [map_some, hstart, opening_vnode]
  exact Prod.ext rfl (opening_setVnode ..)

/-- A named pipe that nobody else has open. -/
theorem fifoStart_new {d : Nat} (hv : (s.vnode v).refCount = 0) (hx : x.refCount = 1 ∧ x.fs = .other d ∧ x.mapped = none)
    (htype : x.type = .fifo) (hf : Opens f v) : ∃ r x' f' pfs' log',
      (s.opening p fd n v x f s.pfs s.log).fifoStart n v flags env = (r, s.opening p fd n v x' f' pfs' log') ∧
      s.Trial v x' pfs' log' ∧ Opens f' v ∧ r ≠ enxio ∧
      (r = 0 → s.Got v x' pfs' log' ∧ x'.refCount = 1 ∧ x'.type = .fifo ∧ x'.pipe = true) := by
  obtain ⟨hone, hfs, hmapped⟩ := hx
  unfold fifoStart
  rcases mapVnode_opening (s := s) (p := p) (n := n) (v := v) (f := f) hmapped env.newnode with hmap | ⟨i, hi, hmap⟩
  · -- The pipe file system has no inode.
    rw [hmap]
    exact ⟨enospc, x, f, s.pfs, s.log, if_pos (by decide), .new x d hv ⟨hone, hfs, hmapped⟩, hf, by decide,
      fun h => nomatch h⟩
  · rw [hmap]
    have htrial : ∀ y : Vnode, y.refCount = 1 → y.fs = .other d → y.mapped = some i →
        s.Trial v y (update s.pfs i (some ⟨0, fun _ => 0#8⟩)) (.pfsNew i :: s.log) :=
      fun y h1 h2 h3 => .mapped y d i hv ⟨h1, h2, h3⟩ hi
    have hgot : ∀ y : Vnode, y.refCount = 1 → y.fs = .other d → y.mapped = some i → y.type = .fifo → y.pipe = true →
        y.size = 0 → y.rdPos = 0 → y.wrPos = 0 →
        s.Got v y (update s.pfs i (some ⟨0, fun _ => 0#8⟩)) (.pfsNew i :: s.log) := by
      intro y h1 h2 h3 h4 h5 h6 h7 h8
      refine .pipe y i hv (by omega) h4 ⟨h3, h5, fun hp => ?_⟩ ⟨h6, h7, h8⟩ hi
      exact nomatch h2.symm.trans hp
    simp only [ne_eq, not_true_eq_false, if_false, opening_vnode, opening_setVnode, hone, if_true]
    by_cases hsize : x.size = 0
    · simp only [hsize, not_true_eq_false, if_false, opening_filp, opening_setFilp]
      exact ⟨0, _, _, _, _, rfl, htrial _ rfl hfs rfl, hf.fifo, by decide,
        fun _ => ⟨hgot _ rfl hfs rfl htype rfl rfl rfl rfl, rfl, htype, rfl⟩⟩
    · simp only [hsize, not_false_eq_true, if_true]
      unfold truncateVnode
      simp only [opening_vnode, htype, hfs]
      rw [if_neg (by simp)]
      rcases env.truncated with _ | _
      · simp only [Bool.false_eq_true, if_false, opening_filp, opening_setFilp]
        exact ⟨einval, _, _, _, _, rfl, htrial _ rfl rfl rfl, hf.fifo, by decide, fun h => nomatch h⟩
      · simp only [if_true, setSize, opening_vnode, opening_setVnode, opening_filp, opening_setFilp]
        exact ⟨0, _, _, _, _, rfl, htrial _ rfl rfl rfl, hf.fifo, by decide,
          fun _ => ⟨hgot _ rfl rfl rfl rfl rfl rfl rfl rfl, rfl, rfl, rfl⟩⟩

end Fifo

theorem fdOf_val (fd : Fd) : fdOf fd.val = some fd := by
  unfold fdOf
  simp

theorem findFilp_eq_some {rw : Rw} (h : s.findFilp v rw = some m) :
    (s.filp m).count ≠ 0 ∧ (s.filp m).vnode = some v := by
  have := List.find?_some h
  simp only [Bool.and_eq_true, decide_eq_true_eq] at this
  exact this.1

/-- A process starts to wait. -/
theorem Refs.suspend (h : s.Refs)
    (hw : (s.suspend p why saved).Waits p) : (s.suspend p why saved).Refs := by
  have hcount : (if why = .popen then { s with suspCount := s.suspCount + 1 } else s : State).Refs := by
    split
    · exact h.of_quiet { SameRefs.refl s with } rfl
    · exact h
  exact hcount.setProc rfl rfl rfl hw

section

variable (s : State) (p : ProcNr) (why : BlockedOn) (saved : SavedCall)

theorem suspend_proc :
    (s.suspend p why saved).proc p = { s.proc p with blockedOn := why, saved := saved, suspReopen := false } := by
  unfold suspend
  rw [setProc_proc_self]
  split <;> rfl

theorem suspend_rest :
    (s.suspend p why saved).filp = s.filp ∧ (s.suspend p why saved).vnode = s.vnode := by
  unfold suspend
  split <;> exact ⟨rfl, rfl⟩

end

/-- The count is taken away and put back. -/
theorem setCount_one (hcount : (s.filp n).count = 1) : (s.setCount n 0).setCount n 1 = s := by
  unfold setCount setFilp
  simp only [update_self, update_idem]
  have hf : ({ s.filp n with count := 1 } : Filp) = s.filp n := by rw [← hcount]
  rw [hf, update_eq_self]

theorem Refs.fifoShare_steps (h : s.Refs) (hlive : s.live p = true)
    (hn : (s.proc p).fds fd = some n) (hcount : (s.filp n).count = 1) (hnv : (s.filp n).vnode = some v) (flags : OpenFlags) :
    Steps C s (s.fifoShare p fd n v flags) ∧
      ∃ fds inuse, (s.fifoShare p fd n v flags).proc p = { s.proc p with fds := fds, inuse := inuse } := by
  unfold fifoShare
  simp only []
  split
  · rename_i m hm
    obtain ⟨hmc, hmv⟩ := findFilp_eq_some hm
    have hmn : m ≠ n := by
      rintro rfl
      exact hmc (congrArg Filp.count (setFilp_filp_self ..))
    have hfilp : (s.setCount n 0).filp m = s.filp m := setFilp_filp_of_ne hmn
    have hfilp' : ((s.setCount n 0).setFd p fd (some m) true).filp m = s.filp m := hfilp
    rw [hfilp] at hmc hmv
    rw [hfilp']
    refine ⟨h.steps_share hlive hn hcount hnv hmn hmc hmv, ?_⟩
    rw [putVnode_proc]
    exact (s.setCount n 0).setFd_fds p fd (some m) true p
  · rw [setCount_one hcount]
    exact ⟨.refl s, _, _, rfl⟩

/-- `pipe_open` and what follows, for a named pipe that is ready. -/
theorem Refs.pipeOpen_steps (h : s.Refs) (hp : s.Idle p)
    (hn : (s.proc p).fds fd = some n) (hcount : (s.filp n).count = 1) (hnv : (s.filp n).vnode = some v)
    (hpipe : (s.vnode v).pipe = true) (flags : OpenFlags) (hfd : saved.fd = fd.val)
    (hcall : saved.call = .openCall ∨ saved.call = .creat) :
    s.pipeOpen p v flags saved = (some enxio, s) ∨
      CallSteps C s p ((s.pipeOpen p v flags saved).1, (s.pipeOpen p v flags saved).2.fifoShare p fd n v flags) ∧
        ((s.pipeOpen p v flags saved).1 = none ∨ (s.pipeOpen p v flags saved).1 = some 0) := by
  have hfifo := h.fifo v hpipe
  have hset : s.setVnode v { s.vnode v with pipe := true } = s := by
    have hx : ({ s.vnode v with pipe := true } : Vnode) = s.vnode v := by rw [← hpipe]
    rw [hx]
    unfold State.setVnode
    rw [update_eq_self]
  unfold pipeOpen
  simp only [hset]
  -- What happens to the filp in the end, if the process has not been suspended.
  have hshare : ∀ t, Steps C s t → s.SameRefs t → t.proc p = s.proc p → CallSteps C s p (some 0, t.fifoShare p fd n v flags) := by
    intro t hsteps hsame hproc
    obtain ⟨h1, h2⟩ := (hsteps.refs h).fifoShare_steps (C := C) (p := p) (n := n) (v := v)
      (by unfold live; rw [hproc]; exact hp.1) (by rw [hproc]; exact hn) ((hsame.count n).trans hcount) ((hsame.vnode n).trans hnv)
      flags
    rw [hproc] at h2
    exact .moved hp (hsteps.trans h1) h2
  by_cases hboth : flags.readable = true ∧ flags.writable = true
  · rw [if_pos hboth]
    exact .inl rfl
  rw [if_neg hboth]
  by_cases hother : (s.findFilp v (if flags.writable = true then .reading else .writing)).isNone = true
  · rw [if_pos hother]
    by_cases hnonblock : flags.nonblock = true
    · rw [if_pos hnonblock]
      by_cases hwrite : flags.writable = true
      · rw [if_pos hwrite]
        exact .inl rfl
      · rw [if_neg hwrite]
        exact .inr ⟨hshare s (.refl s) (.refl s) rfl, .inr rfl⟩
    · -- The process waits for the other end.
      rw [if_neg hnonblock]
      simp only [true_or, and_true]
      refine .inr ?_
      have hproc := s.suspend_proc p .popen saved
      obtain ⟨hfilp, hvnode⟩ := s.suspend_rest p .popen saved
      have hsaved : (s.suspend p .popen saved).savedVnode p = some v := by
        unfold savedVnode
        rw [hproc, hfilp]
        simp only [hfd, fdOf_val, bind_some, hn]
        exact hnv
      have hwaits : (s.suspend p .popen saved).Waits p := by
        unfold Waits
        simp only [hproc]
        exact ⟨hcall, v, hsaved, by rw [hvnode]; exact hfifo⟩
      have hrefs := h.suspend hwaits
      have hwait : Steps C s (s.suspend p .popen saved) := .single (.waitOpen p saved hp) hrefs
      obtain ⟨h1, fds, inuse, h2⟩ := hrefs.fifoShare_steps (C := C) (p := p) (n := n) (v := v)
        (by unfold live; rw [hproc]; exact hp.1) (by rw [hproc]; exact hn) (by rw [hfilp]; exact hcount)
        (by rw [hfilp]; exact hnv) flags
      exact .suspended (hwait.trans h1) (by rw [h2, hproc])
  · rw [if_neg hother]
    by_cases hsusp : 0 < s.suspCount
    · rw [if_pos hsusp]
      have hrun1 : Wakes (fun _ => False) s (s.release v .openCall s.suspCount) :=
        h.release_wakes hfifo (by simp)
      obtain ⟨hrefs1, hframe1⟩ := h.wakes hrun1
      have hrun2 : Wakes (fun _ => False) (s.release v .openCall s.suspCount)
          ((s.release v .openCall s.suspCount).release v .creat (s.release v .openCall s.suspCount).suspCount) :=
        hrefs1.release_wakes ((hframe1.vnode v).file.1.trans hfifo) (by simp)
      have hrun : Wakes (fun _ => False) s _ := hrun1.trans hrun2
      refine .inr ⟨hshare _ (h.steps_wakes hrun) (Wakes.sameRefs hrun fun _ hf => hf) ?_, .inr rfl⟩
      exact ((h.wakes hrun).2.proc p).idle hp.2
    · rw [if_neg hsusp]
      exact .inr ⟨hshare s (.refl s) (.refl s) rfl, .inr rfl⟩

/-! ## Open -/

section Open

variable {p : ProcNr} {fd : Fd} {n : FilpNr} {v : VnodeNr} {x : Vnode} {f : Filp} {pfs : Nat → Option PfsInode} {log : List Event}

theorem opening_proc (s : State) (p : ProcNr) (fd : Fd) (n : FilpNr) (v : VnodeNr) (x : Vnode) (f : Filp)
    (pfs : Nat → Option PfsInode) (log : List Event) : (s.opening p fd n v x f pfs log).proc p =
      { s.proc p with fds := update (s.proc p).fds fd (some n), inuse := update (s.proc p).inuse fd true } :=
  setFd_proc_self ..

theorem Idle.opening (hp : s.Idle p) : (s.opening p fd n v x f pfs log).Idle p := by
  unfold Idle live
  rw [opening_proc]
  exact hp

theorem Idle.congr (hp : s.Idle p) (hproc : s'.proc p = s.proc p) : s'.Idle p := by
  unfold Idle live
  rw [hproc]
  exact hp

/-- An open that fails. -/
theorem Refs.finishOpen_failed (h : s.Refs) (hroom : s.Room p fd n) (hx : s.Trial v x pfs log) {r : Int} (hr : r ≠ 0) :
    CallSteps C s p (finishOpen p fd n v (some r, s.opening p fd n v x f pfs log)) := by
  have hproc : ((s.opening p fd n v x f pfs log).undoOpen p fd n v).proc = s.proc := by
    obtain ⟨y, pfs', heq, -⟩ := undoOpen_opening hroom
    rw [heq]
    rfl
  unfold finishOpen
  simp only [if_neg hr]
  exact .same hroom.idle (h.steps_failed hroom hx) (by rw [hproc])

theorem CallSteps.finishOpen {out : Option Int × State} (h : CallSteps C s p out) (hout : out.1 = none ∨ out.1 = some 0) :
    CallSteps C s p (State.finishOpen p fd n v out) := by
  obtain ⟨r, t⟩ := out
  rcases hout with hout | hout
  · obtain rfl : r = none := hout
    exact h
  · obtain rfl : r = some 0 := hout
    exact .done h.steps (h.idle rfl) h.endpoint

/-- The vnode that a lookup has found for an open. -/
def Looked (s : State) (v : VnodeNr) (x : Vnode) : Prop :=
  (0 < (s.vnode v).refCount ∧ x = { s.vnode v with refCount := (s.vnode v).refCount + 1 }) ∨
    ((s.vnode v).refCount = 0 ∧ ∃ d, x.refCount = 1 ∧ x.fs = .other d ∧ x.mapped = none ∧ x.pipe = false)

theorem Looked.trial (h : s.Looked v x) : s.Trial v x s.pfs s.log := by
  rcases h with ⟨hv, rfl⟩ | ⟨hv, d, h1, h2, h3, -⟩
  · exact .old hv
  · exact .new x d hv ⟨h1, h2, h3⟩

theorem Looked.got (h : s.Looked v x) (htype : x.type ≠ .fifo ∨ 0 < (s.vnode v).refCount) :
    s.Got v x s.pfs s.log ∧ x.refCount = (s.vnode v).refCount + 1 := by
  rcases h with ⟨hv, rfl⟩ | ⟨hv, d, h1, h2, h3, h4⟩
  · exact ⟨.old hv, rfl⟩
  · refine ⟨.file x d s.pfs s.log hv (by omega) (.inl (htype.resolve_right (by omega))) ⟨h3, h4, h2⟩ (.inl ⟨rfl, rfl⟩), by omega⟩

/-- The branch of a named pipe. -/
theorem Refs.openFifo_steps (h : s.Refs) (hroom : s.Room p fd n)
    (hx : s.Looked v x) (htype : x.type = .fifo) (hf : Opens f v) (flags : OpenFlags) (env : OpenEnv)
    (hsaved : saved.fd = fd.val) (hcall : saved.call = .openCall ∨ saved.call = .creat) :
    CallSteps C s p (finishOpen p fd n v ((s.opening p fd n v x f s.pfs s.log).openFifo p fd n v flags env saved)) := by
  -- What follows when the pipe is ready.
  have hready : ∀ x' pfs' log' f', s.Got v x' pfs' log' → s.Trial v x' pfs' log' → x'.refCount = (s.vnode v).refCount + 1 →
      x'.pipe = true → Opens f' v →
      CallSteps C s p (finishOpen p fd n v
        (let out := (s.opening p fd n v x' f' pfs' log').pipeOpen p v flags saved
        if out.1 = some enxio then out else (out.1, out.2.fifoShare p fd n v flags))) := by
    intro x' pfs' log' f' hgot htrial hone hpipe hf'
    have hopen : Steps C s (s.opening p fd n v x' f' pfs' log') := h.steps_opening hroom hgot hone hf'
    have hproc := opening_proc s p fd n v x' f' pfs' log'
    rcases (hopen.refs h).pipeOpen_steps (C := C) hroom.idle.opening (n := n) (v := v)
      (by rw [hproc]; exact update_self ..) (by rw [opening_filp]; exact hf'.count) (by rw [opening_filp]; exact hf'.vnode)
      (by rw [opening_vnode]; exact hpipe) flags hsaved hcall with heq | ⟨hsteps, hout⟩
    · rw [heq]
      exact h.finishOpen_failed hroom htrial (by decide)
    · generalize (s.opening p fd n v x' f' pfs' log').pipeOpen p v flags saved = out at hsteps hout
      obtain ⟨r2, s2⟩ := out
      have hne : r2 ≠ some enxio := by
        rcases hout with hout | hout
        all_goals
          rw [show r2 = _ from hout]
          decide
      simp only [if_neg hne]
      refine CallSteps.finishOpen (hsteps.of_steps hopen ?_) hout
      rw [hproc]
  unfold openFifo
  rcases hx with ⟨hv, hx⟩ | ⟨hv, d, hone, hfs, hmapped, -⟩
  · -- Somebody has the pipe open.
    have hold : (s.vnode v).type = .fifo := by
      rw [hx] at htype
      exact htype
    obtain ⟨hpipe, hmapped⟩ := h.piped v hv hold
    obtain ⟨i, hi⟩ := isSome_iff_exists.mp hmapped
    have hstart : (s.opening p fd n v x f s.pfs s.log).fifoStart n v flags env =
        (0, s.opening p fd n v x (fifoFilp f flags) s.pfs s.log) :=
      fifoStart_open (by rw [hx]; exact hi) (by rw [hx]; exact hpipe) (by rw [hx]; simp only []; omega)
    rw [hstart]
    have hgot : s.Got v x s.pfs s.log := hx ▸ .old hv
    have htrial : s.Trial v x s.pfs s.log := hx ▸ .old hv
    exact hready x s.pfs s.log _ hgot htrial (by rw [hx]) (by rw [hx]; exact hpipe) hf.fifo
  · obtain ⟨r, x', f', pfs', log', hstart, htrial, hf', hr, hgot⟩ :=
      @fifoStart_new s p fd n v x f flags env _ hv ⟨hone, hfs, hmapped⟩ htype hf
    rw [hstart]
    by_cases hzero : r = 0
    · obtain ⟨hgot, hone, -, hpipe⟩ := hgot hzero
      simp only [if_pos hzero]
      exact hready x' pfs' log' f' hgot htrial (by omega) hpipe hf'
    · simp only [if_neg hzero]
      rw [if_neg (by simpa using hr)]
      -- The filp is the only one for the vnode, so it is not shared.
      have hshare : (s.opening p fd n v x' f' pfs' log').fifoShare p fd n v flags = s.opening p fd n v x' f' pfs' log' := by
        unfold fifoShare
        simp only []
        split
        · rename_i m hm
          obtain ⟨hmc, hmv⟩ := findFilp_eq_some hm
          have hmn : m ≠ n := by
            rintro rfl
            exact hmc (congrArg Filp.count (setFilp_filp_self ..))
          rw [setCount, setFilp_filp_of_ne hmn, opening_filp_of_ne _ _ _ _ _ _ _ _ _ hmn] at hmc hmv
          have hpos : 0 < (s.filp m).count := by
            have := h.counted m
            omega
          have := h.refCount_pos hpos hmv
          omega
        · exact setCount_one (by rw [opening_filp]; exact hf'.count)
      rw [hshare]
      exact h.finishOpen_failed hroom htrial hzero

/-- A process waits for a lock or for a driver. -/
theorem Refs.steps_suspend (h : s.Refs) (hp : s.Idle p)
    (hwhy : why = .lock ∨ why = .dopen ∨ why = .other) (hw : (s.suspend p why saved).Waits p) :
    Steps C s (s.suspend p why saved) := by
  have hrefs := h.suspend hw
  have hset : s.suspend p why saved = s.setProc p { s.proc p with blockedOn := why, saved := saved, suspReopen := false } := by
    unfold State.suspend
    rw [if_neg]
    rintro rfl
    simp at hwhy
  rw [hset] at hrefs ⊢
  exact .single (.wait p _ hp hwhy rfl) hrefs

theorem Refs.openType_steps (h : s.Refs) (hroom : s.Room p fd n) (hx : s.Looked v x)
    (hf : Opens f v) (flags : OpenFlags) (env : OpenEnv)
    (hsaved : saved.fd = fd.val) (hcall : saved.call = .openCall ∨ saved.call = .creat) :
    CallSteps C s p (finishOpen p fd n v ((s.opening p fd n v x f s.pfs s.log).openType p fd n v flags env saved)) := by
  have hfail : ∀ r : Int, r ≠ 0 → CallSteps C s p (finishOpen p fd n v (some r, s.opening p fd n v x f s.pfs s.log)) :=
    fun r hr => h.finishOpen_failed hroom hx.trial hr
  have hproc := opening_proc s p fd n v x f s.pfs s.log
  have hopen : x.type ≠ .fifo → Steps C s (s.opening p fd n v x f s.pfs s.log) := fun htype => by
    obtain ⟨hgot, hone⟩ := hx.got (.inl htype)
    exact h.steps_opening hroom hgot hone hf
  have hend : ((s.opening p fd n v x f s.pfs s.log).proc p).endpoint = (s.proc p).endpoint := by rw [hproc]
  have hdone : x.type ≠ .fifo → CallSteps C s p (finishOpen p fd n v (some 0, s.opening p fd n v x f s.pfs s.log)) :=
    fun htype => CallSteps.finishOpen (.moved hroom.idle (hopen htype) ⟨_, _, hproc⟩) (.inr rfl)
  have hanswer : x.type ≠ .fifo → ∀ r : Int, CallSteps C s p (finishOpen p fd n v (some r, s.opening p fd n v x f s.pfs s.log)) := by
    intro htype r
    by_cases hr : r = 0
    · rw [hr]
      exact hdone htype
    · exact hfail r hr
  unfold openType
  rw [opening_vnode]
  rcases htype : x.type with _ | _ | _ | _ | _ | _
  · -- A regular file
    simp only []
    have hne : x.type ≠ .fifo := by simp [htype]
    split
    · split_ifs with hne'
      · have htrunc := ((hopen hne).refs h).steps_truncateVnode (C := C) (v := v)
          (by
            obtain ⟨-, hone⟩ := hx.got (.inl hne)
            have := h.held v
            rw [opening_vnode]
            omega)
          (fun hfifo => absurd (by rw [opening_vnode] at hfifo; exact hfifo) hne) 0 env.truncated
        have hp' := truncateVnode_proc (s.opening p fd n v x f s.pfs s.log) v 0 env.truncated
        exact CallSteps.finishOpen (.moved hroom.idle ((hopen hne).trans htrunc) ⟨_, _, by rw [hp', hproc]⟩) (.inr rfl)
      · exact hfail _ hne'
    · exact hdone hne
  · exact hanswer (by simp [htype]) _
  · -- A character special file
    have hne : x.type ≠ .fifo := by simp [htype]
    rcases env.device with _ | r
    · have hrefs := (hopen hne).refs h
      have hsus := suspend_proc (s.opening p fd n v x f s.pfs s.log) p .dopen saved
      obtain ⟨hfilp, hvnode⟩ := suspend_rest (s.opening p fd n v x f s.pfs s.log) p .dopen saved
      refine CallSteps.finishOpen (.suspended ((hopen hne).trans (hrefs.steps_suspend hroom.idle.opening (by simp) ?_)) ?_) (.inl rfl)
      · unfold Waits
        simp only [hsus]
        intro w hw
        obtain ⟨fd', m, hfd', hm, hw⟩ := savedVnode_eq_some hw
        rw [hsus, hproc] at hfd' hm
        simp only [hsaved, fdOf_val, some.injEq] at hfd' hm
        subst hfd'
        rw [update_self, some.injEq] at hm
        subst hm
        rw [hfilp, opening_filp, hf.vnode, some.injEq] at hw
        subst hw
        rw [hvnode, opening_vnode, htype]
      · rw [hsus]
        exact hend
    · exact hanswer hne r
  · exact hanswer (by simp [htype]) _
  · exact h.openFifo_steps hroom hx htype hf flags env hsaved hcall
  · exact hdone (by simp [htype])

theorem Refs.commonOpen_steps (h : s.Refs) (hp : s.Idle p) {call : CallNr} (hcall : call = .openCall ∨ call = .creat)
    (flags : OpenFlags) (found : Found) (env : OpenEnv) : CallSteps C s p (s.commonOpen p call flags found env) := by
  unfold commonOpen
  split
  · exact .refl hp
  rcases hget : s.getFd p 0 flags.readable flags.writable with r | ⟨fd, n, s1⟩
  · exact .refl hp
  obtain ⟨hfd, hinuse, hn, rfl⟩ := getFd_eq_ok hget
  have hfresh : Steps C s (s.setFilp n ((s.filp n).fresh flags.readable flags.writable)) :=
    h.steps_fresh (by omega) hn
  have hrefs := hfresh.refs h
  have hself : (s.setFilp n ((s.filp n).fresh flags.readable flags.writable)).filp n =
      (s.filp n).fresh flags.readable flags.writable := setFilp_filp_self ..
  generalize hs1 : s.setFilp n ((s.filp n).fresh flags.readable flags.writable) = s1 at hfresh hrefs hself
  have hproc : s1.proc = s.proc := by
    rw [← hs1]
    rfl
  have hp1 : s1.Idle p := hp.congr (by rw [hproc])
  rcases found with r | ⟨info, created⟩
  · exact .same hp hfresh (by rw [hproc])
  simp only []
  rcases hgetv : s1.getVnode (if created then { info with type := .regular } else info) with r | ⟨v, s2⟩
  · exact .same hp hfresh (by rw [hproc])
  simp only []
  -- The vnode that has been found
  have hlooked : ∃ x, s1.Looked v x ∧ s2 = s1.setVnode v x ∧ (created = true → x.type ≠ .fifo ∨ 0 < (s1.vnode v).refCount) := by
    rcases getVnode_eq_ok hgetv with ⟨hv, rfl⟩ | ⟨hv, rfl⟩
    · exact ⟨_, .inl ⟨hv, rfl⟩, rfl, fun _ => .inr hv⟩
    · refine ⟨_, .inr ⟨hv, _, rfl, rfl, rfl, rfl⟩, rfl, fun hc => .inl ?_⟩
      rw [if_pos hc]
      exact FileType.noConfusion
  obtain ⟨x, hx, rfl, hcreated⟩ := hlooked
  refine CallSteps.of_steps hfresh (by rw [hproc]) ?_
  rw [claim_eq_opening, hself]
  have hroom : s1.Room p fd n :=
    ⟨hp1, by rw [hproc]; exact hfd, by rw [hproc]; exact hinuse, by rw [hself]; exact le_of_eq hn⟩
  split
  · rename_i hc
    obtain ⟨hgot, hone⟩ := hx.got (hcreated hc)
    exact CallSteps.finishOpen (.moved hp1 (hrefs.steps_opening hroom hgot hone ⟨rfl, rfl, rfl, by simp [Filp.fresh]⟩)
      ⟨_, _, opening_proc ..⟩) (.inr rfl)
  · split_ifs with hacc
    · exact hrefs.finishOpen_failed hroom hx.trial hacc
    · exact hrefs.openType_steps hroom hx ⟨rfl, rfl, rfl, by simp [Filp.fresh]⟩ flags env rfl hcall

end Open

/-! ## Pipes -/

/-- The filps and descriptors of the two ends of a pipe. -/
def ends (s : State) (p : ProcNr) (fd0 fd1 : Fd) (n0 n1 : FilpNr) (f0 f1 : Filp) : State :=
  (((s.setFilp n0 f0).setFilp n1 f1).setFd p fd0 (some n0) true).setFd p fd1 (some n1) true

/-- The filp and the descriptor of one end. -/
def oneEnd (s : State) (p : ProcNr) (fd : Fd) (n : FilpNr) (f : Filp) : State :=
  (s.setFilp n f).setFd p fd (some n) true

section

variable (s : State) (p : ProcNr) (fd fd' : Fd) (n m : FilpNr) (f g : Filp)

theorem oneEnd_proc : (s.oneEnd p fd n f).proc p =
    { s.proc p with fds := update (s.proc p).fds fd (some n), inuse := update (s.proc p).inuse fd true } :=
  setFd_proc_self ..

theorem oneEnd_filp : (s.oneEnd p fd n f).filp n = f := update_self ..

theorem oneEnd_setFilp : (s.oneEnd p fd n f).setFilp n g = s.oneEnd p fd n g := by
  unfold oneEnd setFilp setFd setProc
  simp only [update_idem]

variable {fd fd' n m}

theorem oneEnd_setFilp_of_ne (h : m ≠ n) : (s.oneEnd p fd n f).setFilp m g = (s.setFilp m g).oneEnd p fd n f := by
  unfold oneEnd setFilp setFd setProc
  simp only [update_comm h]

theorem oneEnd_setFd_of_ne (h : fd' ≠ fd) (o : Option FilpNr) (b : Bool) :
    (s.oneEnd p fd n f).setFd p fd' o b = (s.setFd p fd' o b).oneEnd p fd n f := by
  unfold oneEnd setFilp setFd setProc
  simp only [update_self, update_idem, update_comm h]

variable {s p}

/-- One end is given back. -/
theorem oneEnd_undo (hfd : (s.proc p).fds fd = none) (hinuse : (s.proc p).inuse fd = false) :
    ((s.oneEnd p fd n f).setFd p fd none false).setCount n 0 = s.setFilp n { f with count := 0 } := by
  rw [oneEnd, setFd_setFd_none (s := s.setFilp n f) hfd hinuse]
  unfold setCount setFilp
  simp only [update_self, update_idem]

end

/-- The two ends of a pipe that has been made. -/
theorem Refs.steps_ends (h : s.Refs) (hp : s.Idle p) (fd0 fd1 : Fd) {n0 n1 : FilpNr} {f0 f1 : Filp}
    (hn : n1 ≠ n0) (hn0 : (s.filp n0).count ≤ 0) (hn1 : (s.filp n1).count ≤ 0) (hf0 : Opens f0 v) (hf1 : Opens f1 v)
    (hslack : (s.held v : Int) + 2 ≤ (s.vnode v).refCount) :
    CallSteps C s p (some 0, s.ends p fd0 fd1 n0 n1 f0 f1) := by
  have h1 : Steps C s (s.oneEnd p fd0 n0 f0) := h.steps_end hp hn0 hf0 (by omega)
  have hother : (s.setFilp n0 f0).filp n1 = s.filp n1 := setFilp_filp_of_ne hn
  have hp1 : (s.oneEnd p fd0 n0 f0).Idle p := by
    unfold Idle live
    rw [oneEnd_proc]
    exact hp
  have hheld := s.held_setFilp n0 f0 v
  rw [if_neg (by omega), if_pos ⟨by have := hf0.count; omega, hf0.vnode⟩] at hheld
  have h2 : Steps C (s.oneEnd p fd0 n0 f0) ((s.oneEnd p fd0 n0 f0).oneEnd p fd1 n1 f1) := by
    refine (h1.refs h).steps_end hp1 (le_of_eq_of_le (congrArg Filp.count hother) hn1) hf1 ?_
    show ((s.setFilp n0 f0).held v : Int) + 1 ≤ (s.vnode v).refCount
    omega
  exact .moved hp (h1.trans h2) ⟨_, _, ((s.oneEnd p fd0 n0 f0).oneEnd_proc p fd1 n1 f1).trans (by rw [oneEnd_proc])⟩

theorem Refs.doPipe_steps (h : s.Refs) (hp : s.Idle p) (newnode : Option Nat) :
    CallSteps C s p (some (s.doPipe p newnode).1, (s.doPipe p newnode).2) := by
  unfold doPipe
  rcases hv : s.getFreeVnode with _ | v
  · exact .refl hp
  have hfree : (s.vnode v).refCount = 0 := by simpa using List.find?_some hv
  rcases hget0 : s.getFd p 0 true false with r | ⟨fd0, n0, s1⟩
  · exact .refl hp
  obtain ⟨hfd0, hin0, hn0, rfl⟩ := getFd_eq_ok hget0
  generalize hf0 : (s.filp n0).fresh true false = f0
  have hf0c : f0.count = 0 := by rw [← hf0]; exact hn0
  have hfresh0 : Steps C s (s.setFilp n0 f0) := h.steps_fresh (by omega) hf0c
  have hz0 : ({ f0 with count := 0 } : Filp) = f0 := by rw [← hf0c]
  -- The state with the first descriptor
  have hs3 : ((s.setFilp n0 f0).setFd p fd0 (some n0) true).setCount n0 1 = s.oneEnd p fd0 n0 { f0 with count := 1 } := by
    rw [setCount, ← oneEnd, oneEnd_filp, oneEnd_setFilp]
  have hundo0 := oneEnd_undo (n := n0) { f0 with count := 1 } hfd0 hin0
  simp only [hz0] at hundo0
  simp only [hs3]
  rcases hget1 : (s.oneEnd p fd0 n0 { f0 with count := 1 }).getFd p 0 false true with r | ⟨fd1, n1, s4⟩
  · simp only [hundo0]
    exact .same hp hfresh0 rfl
  obtain ⟨hfd1, hin1, hn1, rfl⟩ := getFd_eq_ok hget1
  rw [oneEnd_proc] at hfd1 hin1
  simp only [] at hfd1 hin1
  have hfd : fd1 ≠ fd0 := by
    rintro rfl
    simp at hfd1
  have hn : n1 ≠ n0 := by
    rintro rfl
    rw [oneEnd_filp] at hn1
    simp at hn1
  rw [update_of_ne hfd] at hfd1 hin1
  have hfilp1 : (s.oneEnd p fd0 n0 { f0 with count := 1 }).filp n1 = s.filp n1 := setFilp_filp_of_ne hn
  rw [hfilp1] at hn1 ⊢
  generalize hf1 : (s.filp n1).fresh false true = f1
  have hf1c : f1.count = 0 := by rw [← hf1]; exact hn1
  -- The state with both descriptors
  have hs6 : (((s.oneEnd p fd0 n0 { f0 with count := 1 }).setFilp n1 f1).setFd p fd1 (some n1) true).setCount n1 1 =
      (s.oneEnd p fd0 n0 { f0 with count := 1 }).oneEnd p fd1 n1 { f1 with count := 1 } := by
    rw [setCount, ← oneEnd, oneEnd_filp, oneEnd_setFilp]
  simp only [hs6]
  unfold pfsNewnode
  generalize hg0 : ({ f0 with count := 1 } : Filp) = g0 at hundo0
  generalize hg1 : ({ f1 with count := 1 } : Filp) = g1
  rcases hnew : newnode.filter fun i => (((s.oneEnd p fd0 n0 g0).oneEnd p fd1 n1 g1).pfs i).isNone with _ | i
  · -- No inode: everything is given back.
    have hundo : ((((s.oneEnd p fd0 n0 g0).oneEnd p fd1 n1 g1).setFd p fd0 none false).setCount n0 0) =
        (s.setFilp n0 f0).oneEnd p fd1 n1 g1 := by
      rw [← hundo0, oneEnd_setFd_of_ne _ _ _ hfd.symm, setCount, setCount, oneEnd_setFilp_of_ne _ _ _ _ hn.symm]
      exact congrArg (fun f : Filp => (State.setFilp _ n0 { f with count := 0 }).oneEnd p fd1 n1 g1) (setFilp_filp_of_ne hn.symm)
    have hz1 : ({ g1 with count := 0 } : Filp) = f1 := by rw [← hg1, ← hf1c]
    simp only [hundo, oneEnd_undo (s := s.setFilp n0 f0) g1 hfd1 hin1, hz1]
    have hfresh1 : Steps C (s.setFilp n0 f0) ((s.setFilp n0 f0).setFilp n1 f1) :=
      (hfresh0.refs h).steps_fresh (by rw [setFilp_filp_of_ne hn]; omega) hf1c
    exact .same hp (hfresh0.trans hfresh1) rfl
  · have hi : s.pfs i = none := isNone_iff_eq_none.mp (filter_eq_some_iff.mp hnew).2
    generalize hx : ({ s.vnode v with
      fs := .pfs, inode := i, mapped := some i, type := .fifo, size := 0
      refCount := 2, pipe := true, rdPos := 0, wrPos := 0 } : Vnode) = x
    have hgot : s.Got v x (update s.pfs i (some ⟨0, fun _ => 0#8⟩)) (.pfsNew i :: s.log) := by
      rw [← hx]
      exact .pipe _ i hfree (by simp) rfl ⟨rfl, rfl, fun _ => rfl⟩ ⟨rfl, rfl, rfl⟩ hi
    have hsteps := h.steps_got (C := C) hgot
    have hrefs := hsteps.refs h
    generalize ht : s.withVnode v x (update s.pfs i (some ⟨0, fun _ => 0#8⟩)) (.pfsNew i :: s.log) = t at hsteps hrefs
    have htf : t.filp = s.filp := by rw [← ht]; rfl
    have htp : t.proc = s.proc := by rw [← ht]; rfl
    have hopens : ∀ {f g : Filp} {r w}, (s.filp (if r then n0 else n1)).fresh r w = f → { f with count := 1 } = g →
        Opens { g with vnode := some v } v := by
      rintro _ _ r w rfl rfl
      exact ⟨rfl, rfl, rfl, by simp [Filp.fresh]⟩
    have hfinal := hrefs.steps_ends (C := C) (hp.congr (by rw [htp])) fd0 fd1 hn (by rw [htf]; omega)
      (by rw [htf]; omega) (hopens (r := true) hf0 hg0) (hopens (r := false) hf1 hg1) (by
        have hheld := h.held v
        have hxv : t.vnode v = x := by
          rw [← ht]
          exact update_self ..
        have hsame : t.held v = s.held v := tally_congr fun m => by rw [htf]
        rw [hxv, hsame, ← hx]
        simp only []
        omega)
    -- The filps get the vnode after the descriptors.
    have hfile : ((((t.oneEnd p fd0 n0 g0).oneEnd p fd1 n1 g1).setFile n0 (some v)).setFile n1 (some v)) =
        t.ends p fd0 fd1 n0 n1 { g0 with vnode := some v } { g1 with vnode := some v } := by
      have hg : ((t.oneEnd p fd0 n0 g0).oneEnd p fd1 n1 g1).filp n0 = g0 :=
        (setFilp_filp_of_ne hn.symm).trans (oneEnd_filp ..)
      rw [setFile, setFile, hg, oneEnd_setFilp_of_ne _ _ _ _ hn.symm, oneEnd_setFilp, oneEnd_filp, oneEnd_setFilp]
      rfl
    have hdone := CallSteps.of_steps hsteps (by rw [htp]) hfinal
    rw [← hfile, ← ht, ← hx] at hdone
    exact hdone

end Minix.Vfs.State
