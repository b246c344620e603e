/-
  Vfs/FileSteps.lean --- the steps that open, share and close files.

  In the midst of an open or a close the references are not counted; the steps here are
  large enough that they are before and after.
-/
import Minix.Vfs.Effects

set_option autoImplicit false

namespace Minix.Vfs.State

open Foundation Relation Function State

variable {p : ProcNr} {fd : Fd} {n : FilpNr} {f : Filp} {v w : VnodeNr} {x : Vnode}
  {pfs : Nat → Option PfsInode}

variable {s s' s'' : State} {C : Cause → Prop}

/-- A vnode that is not in use is written. -/
theorem Refs.setVnode_free (h : s.Refs) (hfree : (s.vnode v).refCount = 0) (hcount : 0 ≤ x.refCount)
    (hpipe : x.pipe = true → x.type = .fifo) (hmapped : (x.mapped.isSome = true ∨ x.fs = .pfs) → x.type = .fifo)
    (hpiped : 0 < x.refCount → x.type = .fifo → x.pipe = true ∧ x.mapped.isSome = true) : (s.setVnode v x).Refs := by
  have hheld := h.held v
  exact h.writeVnode (fun hv => by omega) (by omega) hpipe hmapped hpiped

/-! ## Positions, sizes and tables -/

theorem setFd_fds (s : State) (p : ProcNr) (fd : Fd) (o : Option FilpNr) (b : Bool) (q : ProcNr) :
    ∃ fds inuse, (s.setFd p fd o b).proc q = { s.proc q with fds := fds, inuse := inuse } :=
  setFd_rule ⟨_, _, rfl⟩ (fun _ _ => ⟨_, _, rfl⟩)

/-- A filp is written.  If it is in use, the position is the one that it had, or one that a
file can have. -/
theorem Quiet.setFilp (hpos : ∀ v, 0 < f.count → f.vnode = some v →
    (0 < (s.filp n).count ∧ (s.filp n).vnode = some v ∧ f.pos = (s.filp n).pos) ∨ f.pos.toNat < 2 ^ 32 ∨
      (s.vnode v).type.special ∨ C (.seeks n f.pos)) : Quiet C s (s.setFilp n f) :=
  .of_filps (fun _ => ⟨_, _, rfl⟩) ⟨rfl, rfl, rfl, rfl, rfl, rfl, rfl, .refl⟩
    (setFilp_rule hpos fun _ _ _ hm hv => .inl ⟨hm, hv, rfl⟩)

/-- A descriptor is written. -/
theorem Quiet.setFd {o : Option FilpNr} {b : Bool} : Quiet C s (s.setFd p fd o b) :=
  .of_filps (s.setFd_fds p fd o b) ⟨rfl, rfl, rfl, rfl, rfl, rfl, rfl, .refl⟩ fun _ _ hn hv => .inl ⟨hn, hv, rfl⟩

theorem fdRefs_eq_zero (h : s.Refs) {n : FilpNr} (hn : (s.filp n).count ≤ 0) : s.fdRefs n = 0 := by
  have := h.counted n
  omega

/-- A filp that is not in use is written. -/
theorem Refs.steps_fresh (h : s.Refs) (hn : (s.filp n).count ≤ 0) (hf : f.count = 0) :
    Steps C s (s.setFilp n f) :=
  .single (.quiet (.setFilp fun _ hpos => by omega)) (h.setFilp_free (fdRefs_eq_zero h hn) hf)

/-- The position, the mode or the flags of a filp are written. -/
theorem Refs.steps_filp (h : s.Refs)
    (hf : f.count = (s.filp n).count ∧ f.vnode = (s.filp n).vnode ∧ f.selBusy = (s.filp n).selBusy)
    (hpos : f.pos = (s.filp n).pos ∨ f.pos.toNat < 2 ^ 32 ∨ (∀ v, f.vnode = some v → (s.vnode v).type.special) ∨
      C (.seeks n f.pos)) : Steps C s (s.setFilp n f) := by
  obtain ⟨hcount, hvnode, hbusy⟩ := hf
  refine .single (.quiet (.setFilp fun v hm hv => ?_)) ?_
  · rcases hpos with hp | hp | hp | hp
    · exact .inl ⟨hcount ▸ hm, hvnode ▸ hv, hp⟩
    · exact .inr (.inl hp)
    · exact .inr (.inr (.inl (hp v hv)))
    · exact .inr (.inr (.inr hp))
  · exact h.of_quiet { SameRefs.refl s with
      count := setFilp_rule hcount fun _ _ => rfl
      vnode := setFilp_rule hvnode fun _ _ => rfl
      selBusy := setFilp_rule hbusy fun _ _ => rfl } rfl

/-- The locks and the drivers are written. -/
theorem Refs.steps_tables (h : s.Refs) {locks : LockTable} (hlocks : ReflTransGen LockStep s.locks locks)
    (dmap : Major → Option Endpoint) : Steps C s { s with locks := locks, dmap := dmap } :=
  .single (.quiet (.of_filps (fun _ => ⟨_, _, rfl⟩) ⟨rfl, rfl, rfl, rfl, rfl, rfl, rfl, hlocks⟩ fun _ _ hn hv => .inl ⟨hn, hv, rfl⟩))
    (h.of_quiet { SameRefs.refl s with } rfl)

theorem setSize_vnode_self (s : State) (v : VnodeNr) (k : Int) : (s.setSize v k).vnode v = { s.vnode v with size := k } :=
  setVnode_vnode_self

/-- Another vnode changes inodes of the pipe file system that are its own. -/
theorem KeptPipe.of_ne (hw : w ≠ v) (hvnode : s'.vnode w = s.vnode w)
    (hpfs : ∀ i, s'.pfs i ≠ s.pfs i → 0 < (s.vnode v).refCount ∧ (s.vnode v).Uses i) : s.KeptPipe C s' w := by
  intro i hcount huses
  rw [hvnode] at hcount huses
  refine ⟨hcount, huses, .inr ⟨by simp [hvnode], ?_⟩⟩
  by_cases hi : s'.pfs i = s.pfs i
  · exact .inl hi
  · exact .inr (.inr (.inr ⟨v, hw.symm, hpfs i hi⟩))

/-- The size of a file is written; that of a pipe, where it is truncated. -/
theorem Refs.steps_size (h : s.Refs) (hv : (s.vnode v).type = .fifo → 0 < (s.vnode v).refCount ∧ C (.truncates v)) {k : Int}
    (hpfs : ∀ i, pfs i ≠ s.pfs i → (s.vnode v).Uses i) :
    Steps C s (State.setSize { s with pfs := pfs } v k) := by
  have hrefs : ({ s with pfs := pfs } : State).Refs := h.of_quiet { SameRefs.refl s with } rfl
  refine .single (.quiet ⟨fun p => ⟨_, _, rfl⟩, rfl, ⟨rfl, rfl⟩, rfl, .refl, fun _ _ hn hv => .inl ⟨hn, hv, rfl⟩,
    fun w _ _ => setVnode_rule rfl (fun _ _ => rfl) w, .inl rfl, .inl fun w => ?_⟩)
    (hrefs.setVnode rfl rfl (h.held v) (h.fifo v) (fun hx => h.mapped v (.inl hx)) (h.piped v))
  by_cases hw : w = v
  · subst hw
    intro i _ huses
    rw [setSize_vnode_self] at huses
    obtain ⟨hcount, hC⟩ := hv (h.uses_fifo huses)
    exact ⟨hcount, huses, .inl hC⟩
  · exact .of_ne hw (setVnode_vnode_of_ne hw) fun i hi => ⟨(hv (h.uses_fifo (hpfs i hi))).1, hpfs i hi⟩

/-- A truncation that is done writes the size, and an inode of the pipe file system becomes empty. -/
theorem truncateVnode_eq (s : State) {v : VnodeNr} {k : Int} {ok : Bool} : (s.truncateVnode v k ok).2 = s ∨
    ∃ pfs, (s.truncateVnode v k ok).2 = State.setSize { s with pfs := pfs } v k ∧ ∀ i, pfs i = s.pfs i ∨
      (((s.vnode v).fs = .pfs ∧ (s.vnode v).inode = i) ∧ k = 0 ∧ pfs i = (s.pfs i).map fun x => { x with size := 0 }) := by
  unfold truncateVnode
  simp only []
  split
  · exact .inl rfl
  rcases hfs : (s.vnode v).fs with _ | d
  · rcases hy : s.pfs (s.vnode v).inode with _ | y
    · exact .inl rfl
    simp only []
    split_ifs with hzero
    · exact .inl rfl
    refine .inr ⟨_, rfl, fun i => ?_⟩
    by_cases hi : i = (s.vnode v).inode
    · subst hi
      exact .inr ⟨by simp, not_not.mp hzero, by rw [hy]; exact update_self ..⟩
    · exact .inl (update_of_ne hi ..)
  · simp only []
    split
    · exact .inr ⟨s.pfs, rfl, fun _ => .inl rfl⟩
    · exact .inl rfl

theorem truncateVnode_proc (s : State) (v : VnodeNr) (k : Int) (ok : Bool) : (s.truncateVnode v k ok).2.proc = s.proc := by
  rcases s.truncateVnode_eq with heq | ⟨pfs, heq, -⟩
  · rw [heq]
  · rw [heq]
    rfl

theorem Refs.steps_truncateVnode (h : s.Refs) (hv : 0 < (s.vnode v).refCount)
    (hC : (s.vnode v).type = .fifo → C (.truncates v)) (k : Int) (ok : Bool) : Steps C s (s.truncateVnode v k ok).2 := by
  rcases s.truncateVnode_eq with heq | ⟨pfs, heq, hpfs⟩
  · rw [heq]
    exact .refl s
  · rw [heq]
    exact h.steps_size (fun hfifo => ⟨hv, hC hfifo⟩) fun i hi => .inr ((hpfs i).resolve_left hi).1

/-! ## Closing -/

/-- The pipe is truncated to the size that it has. -/
theorem truncateVnode_size (s : State) {v : VnodeNr} {ok : Bool} :
    ∃ pfs, (s.truncateVnode v (s.vnode v).size ok).2 = { s with pfs := pfs } ∧
      ∀ i, pfs i = s.pfs i ∨ ((s.vnode v).Uses i ∧ (s.vnode v).size = 0 ∧
        pfs i = (s.pfs i).map fun x => { x with size := 0 }) := by
  rcases s.truncateVnode_eq with heq | ⟨pfs, heq, hpfs⟩
  · exact ⟨s.pfs, heq, fun _ => .inl rfl⟩
  · exact ⟨pfs, by rw [heq, setSize, setVnode, update_eq_self], fun i => (hpfs i).imp id fun h => ⟨.inr h.1, h.2⟩⟩

theorem putVnode_vnode_of_ne (s : State) (hw : w ≠ v) : (s.putVnode v).vnode w = s.vnode w := by
  have hput := s.putVnode_put v
  generalize s.putVnode v = t at hput
  cases hput with
  | less | last => exact setVnode_vnode_of_ne hw

theorem putVnode_pfs_of_used (s : State) (hv : 0 < ((s.putVnode v).vnode v).refCount) :
    (s.putVnode v).pfs = s.pfs := by
  have hput := s.putVnode_put v
  generalize s.putVnode v = t at hput hv
  cases hput with
  | less => rfl
  | last =>
    rw [setVnode_vnode_self] at hv
    exact absurd hv (lt_irrefl 0)

/-- A reference to a vnode is given back, with changes of filps before. -/
theorem Quiet.putVnode {t : State}
    (hproc : ∀ p, ∃ fds inuse, t.proc p = { s.proc p with fds := fds, inuse := inuse })
    (hrest : t.sel = s.sel ∧ t.suspCount = s.suspCount ∧ t.reviving = s.reviving ∧ t.panics = s.panics ∧
      t.vnode = s.vnode ∧ t.log = s.log ∧ t.locks = s.locks)
    (hpos : ∀ n w, 0 < (t.filp n).count → (t.filp n).vnode = some w →
      0 < (s.filp n).count ∧ (s.filp n).vnode = some w ∧ (t.filp n).pos = (s.filp n).pos)
    (hv : 0 < (s.vnode v).refCount)
    (hpfs : ∀ i, t.pfs i = s.pfs i ∨ ((s.vnode v).Uses i ∧ (s.vnode v).size = 0 ∧
      t.pfs i = (s.pfs i).map fun x => { x with size := 0 })) : Quiet C s (t.putVnode v) := by
  obtain ⟨hsel, hsusp, hrev, hpanics, hvnode, hlog, hlocks⟩ := hrest
  obtain ⟨vnode, pfs, heq⟩ := t.putVnode_rest v
  have hsame := t.putVnode_same v
  rw [hvnode] at hsame
  refine ⟨fun p => by rw [heq]; exact hproc p, by rw [heq]; exact hsel, by rw [heq]; exact ⟨hsusp, hrev⟩,
    by rw [heq]; exact hpanics, by rw [heq]; exact hlocks ▸ .refl, fun n w hn hw => .inl ?_, fun w _ _ => (hsame w).file.1, .inl (by rw [heq]; exact hlog),
    .inl fun w => ?_⟩
  · rw [putVnode_filp] at hn hw ⊢
    exact hpos n w hn hw
  by_cases hwv : w = v
  · subst hwv
    intro i hused huses
    obtain ⟨hpos', -, hmapped, -⟩ := (hsame w).used hused
    refine ⟨hpos', ?_, .inr ⟨⟨(hsame w).size, (hsame w).pos.1, (hsame w).pos.2⟩, ?_⟩⟩
    · unfold Vnode.Uses at huses ⊢
      rwa [hmapped, (hsame w).file.2.1, (hsame w).file.2.2] at huses
    · rw [t.putVnode_pfs_of_used hused]
      rcases hpfs i with hi | ⟨-, hsize, hi⟩
      · exact .inl hi
      · exact .inr (.inl ⟨hsize, hi⟩)
  · refine .of_ne hwv (by rw [t.putVnode_vnode_of_ne hwv, hvnode]) fun i hi => ⟨hv, ?_⟩
    by_cases hput : (t.putVnode v).pfs i = t.pfs i
    · rw [hput] at hi
      exact ((hpfs i).resolve_left hi).1
    · have := t.putVnode_pfs_uses hput
      rwa [hvnode] at this

theorem busyRefs_setFilp (hf : f.selBusy = (s.filp n).selBusy) : (s.setFilp n f).busyRefs n = s.busyRefs n :=
  tally_congr fun d => by
    rw [setFilp_filp_self, hf]
    rfl

/-- A filp that stays in use, for the same vnode, is counted anew. -/
theorem Refs.steps_recount (h : s.Refs) (hn : 0 < (s.filp n).count)
    (hf : f.vnode = (s.filp n).vnode ∧ f.pos = (s.filp n).pos ∧ f.selBusy = (s.filp n).selBusy)
    (hcount : (s.fdRefs n : Int) + s.busyRefs n ≤ f.count) : Steps C s (s.setFilp n f) := by
  obtain ⟨hvnode, hpos, hsel⟩ := hf
  have hbusy := busyRefs_setFilp hsel
  exact .single (.quiet (.setFilp fun v _ hv => .inl ⟨hn, hvnode ▸ hv, hpos⟩))
    (h.setFilp (by omega) (fun _ => by omega) (fun v _ hv hnot => absurd ⟨hn, hvnode ▸ hv⟩ hnot) (.inl hvnode))

/-- A filp that no descriptor is for becomes free, and its vnode is given back. -/
theorem Refs.steps_drop (h : s.Refs) (hrefs : s.fdRefs n = 0) (hcount : 0 < (s.filp n).count)
    (hv : (s.filp n).vnode = some v)
    (hpfs : ∀ i, pfs i = s.pfs i ∨ ((s.vnode v).Uses i ∧ (s.vnode v).size = 0 ∧
      pfs i = (s.pfs i).map fun x => { x with size := 0 })) :
    Steps C s (State.putVnode { s.setCount n 0 with pfs := pfs } v) := by
  have hfree : ({ s.setCount n 0 with pfs := pfs } : State).Refs :=
    (h.setFilp_free hrefs rfl).of_quiet { SameRefs.refl _ with } rfl
  have hheld := held_setCount_zero hcount hv
  have hold := h.held v
  refine .single (.quiet (.putVnode (fun p => ⟨_, _, rfl⟩) ⟨rfl, rfl, rfl, rfl, rfl, rfl, rfl⟩ ?_
    (h.refCount_pos hcount hv) hpfs)) (hfree.putVnode ?_)
  · exact setFilp_rule (fun w hm => absurd hm (lt_irrefl 0)) fun _ _ _ hm hw => ⟨hm, hw, rfl⟩
  · show ((s.setCount n 0).held v : Int) < (s.vnode v).refCount
    omega

/-- One reference to a filp is given back, with the vnode if it is the last one. -/
theorem Refs.steps_less (h : s.Refs) (hv : (s.filp n).vnode = some v)
    (hslack : (s.fdRefs n : Int) + s.busyRefs n + 1 ≤ (s.filp n).count) (truncated : Bool) :
    Steps C s (s.lessFilp n v truncated) := by
  have hself : ((s.setCount n ((s.filp n).count - 1)).filp n).count = (s.filp n).count - 1 :=
    congrArg Filp.count (setFilp_filp_self ..)
  unfold lessFilp
  simp only [hself]
  by_cases hlast : (s.filp n).count - 1 = 0
  · rw [if_pos hlast, hlast]
    -- The truncation before the vnode is given back.
    have htrunc : ∃ pfs, (if ((s.setCount n 0).vnode v).pipe then
          ((s.setCount n 0).truncateVnode v ((s.setCount n 0).vnode v).size truncated).2 else s.setCount n 0) =
          { s.setCount n 0 with pfs := pfs } ∧
        ∀ i, pfs i = s.pfs i ∨ ((s.vnode v).Uses i ∧ (s.vnode v).size = 0 ∧
          pfs i = (s.pfs i).map fun x => { x with size := 0 }) := by
      split
      · exact (s.setCount n 0).truncateVnode_size
      · exact ⟨s.pfs, rfl, fun _ => .inl rfl⟩
    obtain ⟨pfs, heq, hpfs⟩ := htrunc
    rw [heq]
    exact h.steps_drop (by omega) (by omega) hv hpfs
  · rw [if_neg hlast]
    exact h.steps_recount (by omega) ⟨rfl, rfl, rfl⟩ (by simp only []; omega)

/-- The process of a call or of an exit: it is not suspended, or it waits for a driver. -/
def Exits (s : State) (p : ProcNr) : Prop :=
  s.live p = true ∧ ((s.proc p).blockedOn = .none ∨ (s.proc p).blockedOn = .dopen ∨ (s.proc p).blockedOn = .other)

theorem Idle.exits (h : s.Idle p) : s.Exits p := ⟨h.1, .inl h.2⟩

/-- A descriptor that is given back does not matter to a process that waits for a driver. -/
theorem Waits.clearFd (h : s.Waits p) (hp : s.Exits p) (fd : Fd) (b : Bool) : (s.setFd p fd none b).Waits p := by
  have hproc := s.setFd_proc_self p fd none b
  have hsaved : ∀ v, (s.setFd p fd none b).savedVnode p = some v → s.savedVnode p = some v := by
    intro v hv
    obtain ⟨fd', n, hfd', hn, hv⟩ := savedVnode_eq_some hv
    rw [hproc] at hfd' hn
    simp only [] at hfd' hn
    have hne : fd' ≠ fd := by
      rintro rfl
      simp at hn
    rw [update_of_ne hne] at hn
    simp [savedVnode, hfd', hn, show (s.filp n).vnode = some v from hv]
  have hb : ((s.setFd p fd none b).proc p).blockedOn = (s.proc p).blockedOn := by rw [hproc]
  unfold Waits at h ⊢
  rcases hp.2 with hp | hp | hp
  · simp only [hb, hp]
  · simp only [hp] at h
    simp only [hb, hp]
    exact fun v hv => h v (hsaved v hv)
  · simp only [hp] at h
    simp only [hb, hp]
    exact fun v hv => h v (hsaved v hv)

theorem Refs.steps_clearFd (h : s.Refs) (hp : s.Exits p) (fd : Fd) (b : Bool) : Steps C s (s.setFd p fd none b) :=
  .single (.quiet .setFd)
    (h.setFd (.inl hp.1) (fun _ hn => nomatch hn) ((h.waits p hp.1).clearFd hp fd b))

theorem putVnode_setFd (s : State) (v : VnodeNr) (p : ProcNr) (fd : Fd) (b : Bool) :
    (s.putVnode v).setFd p fd none b = (s.setFd p fd none b).putVnode v := by
  have hput : ∀ x : Vnode, (s.setFd p fd none b).putPfs x = (s.putPfs x).setFd p fd none b := by
    intro x
    unfold putPfs
    rcases x.fs with _ | d
    · rfl
    rcases x.mapped with _ | i
    · rfl
    · by_cases hi : i = x.inode
      · simp only [if_pos hi]
      · simp only [if_neg hi]
        rfl
  have hvnode : (s.setFd p fd none b).vnode = s.vnode := rfl
  unfold putVnode
  by_cases hone : 1 < (s.vnode v).refCount
  · simp only [hvnode, if_pos hone]
    rfl
  · simp only [hvnode, if_neg hone, hput]
    rfl

theorem truncateVnode_setFd (s : State) (v : VnodeNr) (k : Int) (ok : Bool) (p : ProcNr) (fd : Fd) (b : Bool) :
    (s.truncateVnode v k ok).2.setFd p fd none b = ((s.setFd p fd none b).truncateVnode v k ok).2 := by
  have hvnode : (s.setFd p fd none b).vnode = s.vnode := rfl
  have hpfs : (s.setFd p fd none b).pfs = s.pfs := rfl
  unfold truncateVnode
  simp only [hvnode, hpfs]
  split
  · rfl
  rcases (s.vnode v).fs with _ | d
  · rcases s.pfs (s.vnode v).inode with _ | y
    · rfl
    · simp only []
      split <;> rfl
  · simp only []
    split <;> rfl

/-- The descriptor may as well be given back first. -/
theorem lessFilp_setFd (s : State) (n : FilpNr) (v : VnodeNr) (truncated : Bool) (p : ProcNr) (fd : Fd) (b : Bool) :
    (s.lessFilp n v truncated).setFd p fd none b = (s.setFd p fd none b).lessFilp n v truncated := by
  have hcount : ∀ k, (s.setFd p fd none b).setCount n k = (s.setCount n k).setFd p fd none b := fun _ => rfl
  have hfilp : (s.setFd p fd none b).filp = s.filp := rfl
  unfold lessFilp
  simp only [hfilp, hcount]
  generalize s.setCount n ((s.filp n).count - 1) = t
  have htf : (t.setFd p fd none b).filp = t.filp := rfl
  have htv : (t.setFd p fd none b).vnode = t.vnode := rfl
  simp only [htf, htv]
  by_cases hzero : (t.filp n).count = 0
  · simp only [if_pos hzero, putVnode_setFd]
    by_cases hpipe : (t.vnode v).pipe = true
    · simp only [if_pos hpipe, truncateVnode_setFd]
    · simp only [if_neg hpipe]
  · simp only [if_neg hzero]

/-- Nobody is woken up for a dead driver. -/
theorem Refs.steps_wakes (h : s.Refs) (hrun : Wakes (fun _ => False) s s') : Steps C s s' :=
  h.steps_of_wakes (fun _ hfalse => hfalse.elim) hrun

/-- Before the reference is given back, `close_filp` wakes processes up that wait for the pipe. -/
theorem Refs.closeFilp_eq (h : s.Refs) (hv : (s.filp n).vnode = some v) (truncated : Bool) :
    ∃ s1, Steps C s s1 ∧ s.SameRefs s1 ∧ (∀ p, (s.proc p).Woken (s1.proc p)) ∧ s1.locks = s.locks ∧
      s.closeFilp n truncated = s1.lessFilp n v truncated := by
  unfold closeFilp
  rw [hv]
  simp only []
  generalize hs1 : s.markClosed n v = s1
  have hmode : Steps C s s1 ∧ s.SameRefs s1 ∧ s1.proc = s.proc ∧ s1.locks = s.locks := by
    rw [← hs1]
    unfold markClosed
    split
    · exact ⟨h.steps_filp ⟨rfl, rfl, rfl⟩ (.inl rfl), { SameRefs.refl s with
        count := setFilp_rule rfl fun _ _ => rfl
        vnode := setFilp_rule rfl fun _ _ => rfl
        selBusy := setFilp_rule rfl fun _ _ => rfl }, rfl, rfl⟩
    · exact ⟨.refl s, .refl s, rfl, rfl⟩
  obtain ⟨hsteps, hsame, hproc, hlocks⟩ := hmode
  have hrefs := hsteps.refs h
  by_cases hpipe : (s1.vnode v).pipe = true
  · rw [if_pos hpipe]
    have hrel : Wakes (fun _ => False) s1
        (s1.release v (if (s1.filp n).readable = true then .write else .read) nrProcs) :=
      hrefs.release_wakes (hrefs.fifo v hpipe) (by split <;> simp)
    have hframe := (hrefs.wakes hrel).2
    refine ⟨_, hsteps.trans (hrefs.steps_wakes hrel), hsame.trans (hrel.sameRefs fun _ hf => hf), fun p => ?_,
      hframe.locks.trans hlocks, rfl⟩
    have := hframe.proc p
    rwa [hproc] at this
  · rw [if_neg hpipe]
    exact ⟨s1, hsteps, hsame, fun p => hproc ▸ .refl, hlocks, rfl⟩

theorem Exits.woken (h : s.Exits p) (hw : (s.proc p).Woken (s'.proc p)) : s'.Exits p := by
  refine ⟨?_, ?_⟩
  · unfold live
    rw [hw.slot.1]
    exact h.1
  · by_cases hb : (s'.proc p).blockedOn = .none
    · exact .inl hb
    · have heq : (s'.proc p).blockedOn = (s.proc p).blockedOn := by
        rcases hw.asleep hb with heq | heq
        all_goals rw [heq]
      rw [heq]
      exact h.2

theorem getFilp_eq_ok {k : Int} (h : s.getFilp p k = .ok (fd, n)) :
    fdOf k = some fd ∧ (s.proc p).fds fd = some n := by
  unfold getFilp at h
  rcases hfd : fdOf k with _ | fd'
  · rw [hfd] at h
    simp at h
  rw [hfd] at h
  simp only [] at h
  rcases hn : (s.proc p).fds fd' with _ | n'
  · rw [hn] at h
    simp at h
  · rw [hn] at h
    obtain ⟨rfl, rfl⟩ := h
    exact ⟨rfl, hn⟩

theorem getFilp_eq_error {k r : Int} (h : s.getFilp p k = .error r) (hfd : fdOf k = some fd) :
    (s.proc p).fds fd = none := by
  unfold getFilp at h
  rw [hfd] at h
  simp only [] at h
  rcases hn : (s.proc p).fds fd with _ | n
  · rfl
  · rw [hn] at h
    simp at h

section

variable (s : State) (n : FilpNr) (v : VnodeNr) (truncated : Bool)

theorem lessFilp_rest :
    ∃ filp vnode pfs, s.lessFilp n v truncated = { s with filp := filp, vnode := vnode, pfs := pfs } := by
  unfold lessFilp
  simp only []
  split
  · split
    · obtain ⟨pfs, heq, -⟩ := (s.setCount n ((s.filp n).count - 1)).truncateVnode_size
      obtain ⟨vnode, pfs', heq'⟩ := putVnode_rest { s.setCount n ((s.filp n).count - 1) with pfs := pfs } v
      rw [heq, heq']
      exact ⟨_, vnode, pfs', rfl⟩
    · obtain ⟨vnode, pfs, heq⟩ := putVnode_rest (s.setCount n ((s.filp n).count - 1)) v
      rw [heq]
      exact ⟨_, vnode, pfs, rfl⟩
  · exact ⟨_, s.vnode, s.pfs, rfl⟩

end

/-- The slot of a process of which a descriptor has been closed. -/
structure Closed (s s' : State) (p : ProcNr) (k : Int) : Prop where
  exits : s'.Exits p
  endpoint : (s'.proc p).endpoint = (s.proc p).endpoint
  fds : ∀ fd n, (s'.proc p).fds fd = some n → (s.proc p).fds fd = some n
  closed : ∀ fd, fdOf k = some fd → (s'.proc p).fds fd = none
  idle : (s.proc p).blockedOn = .none → (s'.proc p).blockedOn = .none ∧
    ∀ fd, fdOf k ≠ some fd → (s'.proc p).fds fd = (s.proc p).fds fd

/-- A descriptor is given back, before locks are looked at. -/
theorem Refs.giveBack_steps (h : s.Refs) (hp : s.Exits p) {k : Int} (hfd : fdOf k = some fd)
    (hn : (s.proc p).fds fd = some n) (truncated : Bool) :
    let t := (s.closeFilp n truncated).setFd p fd none false
    Steps C s t ∧ s.Closed t p k ∧ t.locks = s.locks ∧ ∃ s1 : State, (∀ q, (s.proc q).Woken (s1.proc q)) ∧
      ∀ q, ∃ fds inuse, t.proc q = { s1.proc q with fds := fds, inuse := inuse } := by
  have hclosed : ∀ t t' : State, (s.proc p).Woken (t.proc p) → t'.proc = (t.setFd p fd none false).proc →
      s.Closed t' p k := by
    intro t t' hw ht'
    have hset := t.setFd_proc_self p fd none false
    have hexits := hp.woken hw
    refine ⟨?_, ?_, fun fd' m hm => ?_, fun fd' hfd' => ?_, fun hb => ⟨?_, fun fd' hfd' => ?_⟩⟩
    · unfold Exits live
      rw [ht', hset]
      exact hexits
    · rw [ht', hset]
      exact hw.slot.2.1
    · rw [ht', hset] at hm
      by_cases hne : fd' = fd
      · subst hne
        simp at hm
      · simp only [update_of_ne hne] at hm
        exact hw.fds fd' m hm
    · rw [ht', hset]
      obtain rfl : fd = fd' := Option.some.inj (hfd.symm.trans hfd')
      exact update_self ..
    · rw [ht', hset, hw.idle hb]
      exact hb
    · rw [ht', hset, hw.idle hb]
      refine update_of_ne ?_ ..
      rintro rfl
      exact hfd' hfd
  rcases hv : (s.filp n).vnode with _ | v
  · have hsame : s.closeFilp n truncated = s := by
      unfold closeFilp
      rw [hv]
    rw [hsame]
    exact ⟨h.steps_clearFd hp fd false, hclosed s _ .refl rfl, rfl, s, fun _ => .refl, s.setFd_fds p fd none false⟩
  · obtain ⟨s1, hsteps, hsame, hwoken, hlocks, heq⟩ := h.closeFilp_eq (C := C) hv truncated
    rw [heq, lessFilp_setFd]
    have hrefs := hsteps.refs h
    have hexits := hp.woken (hwoken p)
    have hfds : (s1.proc p).fds fd = some n := by
      rw [hsame.fds]
      exact hn
    have hclear := hrefs.steps_clearFd (C := C) hexits fd false
    have hless := (hclear.refs hrefs).steps_less (C := C) (n := n) (v := v)
      (show (s1.filp n).vnode = some v from (hsame.vnode n).trans hv) (by
        have hset := s1.fdRefs_setFd p fd none false n
        have hbusy := hrefs.busy n (hrefs.count_pos hfds)
        rw [if_pos hfds, if_neg (by simp)] at hset
        show ((s1.setFd p fd none false).fdRefs n : Int) + s1.busyRefs n + 1 ≤ (s1.filp n).count
        omega) truncated
    obtain ⟨filp, vnode, pfs, hrest⟩ := (s1.setFd p fd none false).lessFilp_rest n v truncated
    rw [hrest] at hless ⊢
    exact ⟨hsteps.trans (hclear.trans hless), hclosed s1 _ (hwoken p) rfl, hlocks, s1, hwoken, s1.setFd_fds p fd none false⟩

theorem Refs.closeFd_steps (h : s.Refs) (hp : s.Exits p) (k : Int) (truncated : Bool) :
    Steps C s (s.closeFd p k truncated).2 ∧ s.Closed (s.closeFd p k truncated).2 p k := by
  unfold closeFd
  rcases hget : s.getFilp p k with r | ⟨fd, n⟩
  · refine ⟨.refl s, hp, rfl, fun _ _ hn => hn, fun fd hfd => getFilp_eq_error hget hfd, fun hb => ⟨hb, fun _ _ => rfl⟩⟩
  obtain ⟨hfd, hn⟩ := getFilp_eq_ok hget
  simp only []
  obtain ⟨hsteps, hclosed, -⟩ := h.giveBack_steps (C := C) hp hfd hn truncated
  generalize (s.closeFilp n truncated).setFd p fd none false = t at hsteps hclosed ⊢
  rcases (s.filp n).vnode with _ | v
  · exact ⟨hsteps, hclosed⟩
  simp only []
  have hrefs := hsteps.refs h
  have hlocks := hrefs.steps_tables (C := C) (.single (.close t.locks (t.proc p).pid v.val)) t.dmap
  have hclosed' : s.Closed { t with locks := releaseLocks t.locks (t.proc p).pid v.val } p k :=
    ⟨hclosed.exits, hclosed.endpoint, hclosed.fds, hclosed.closed, hclosed.idle⟩
  have hrefs' := hlocks.refs hrefs
  split
  · have hrun := hrefs'.lockRevive_wakes (D := fun _ => False)
    refine ⟨hsteps.trans (hlocks.trans (hrefs'.steps_wakes hrun)), ?_⟩
    have hw := (hrefs'.wakes hrun).2.proc p
    refine ⟨hclosed'.exits.woken hw, hw.slot.2.1.trans hclosed'.endpoint, fun fd m hm => hclosed'.fds fd m (hw.fds fd m hm),
      fun fd' hfd' => ?_, fun hb => ?_⟩
    · by_contra hsome
      obtain ⟨m, hm⟩ := Option.ne_none_iff_exists'.mp hsome
      exact nomatch (hclosed'.closed fd' hfd').symm.trans (hw.fds fd' m hm)
    · obtain ⟨hb', hfds⟩ := hclosed'.idle hb
      rw [hw.idle hb']
      exact ⟨hb', hfds⟩
  · exact ⟨hsteps.trans hlocks, hclosed'⟩

/-! ## Opening -/

/-- A vnode that a lookup finds or makes: one that is in use, one that is not a pipe or is free
again, or a pipe that is empty. -/
inductive Got (s : State) (v : VnodeNr) : Vnode → (Nat → Option PfsInode) → List Event → Prop
  | old (hv : 0 < (s.vnode v).refCount) : Got s v { s.vnode v with refCount := (s.vnode v).refCount + 1 } s.pfs s.log
  | file (x : Vnode) (d : Nat) (pfs : Nat → Option PfsInode) (log : List Event) (hv : (s.vnode v).refCount = 0)
      (hx : 0 ≤ x.refCount) (htype : x.type ≠ .fifo ∨ x.refCount = 0)
      (hpipe : x.mapped = none ∧ x.pipe = false ∧ x.fs = .other d)
      (hpfs : (pfs = s.pfs ∧ log = s.log) ∨ ∃ i, s.pfs i = none ∧ (∀ j, j ≠ i → pfs j = s.pfs j) ∧ log = .pfsNew i :: s.log) :
      Got s v x pfs log
  | pipe (x : Vnode) (i : Nat) (hv : (s.vnode v).refCount = 0) (hx : 0 ≤ x.refCount) (htype : x.type = .fifo)
      (hpipe : x.mapped = some i ∧ x.pipe = true ∧ (x.fs = .pfs → x.inode = i))
      (hempty : x.size = 0 ∧ x.rdPos = 0 ∧ x.wrPos = 0) (hpfs : s.pfs i = none) :
      Got s v x (Function.update s.pfs i (some ⟨0, fun _ => 0#8⟩)) (.pfsNew i :: s.log)

/-- The state with the vnode. -/
def withVnode (s : State) (v : VnodeNr) (x : Vnode) (pfs : Nat → Option PfsInode) (log : List Event) : State :=
  { s with vnode := Function.update s.vnode v x, pfs := pfs, log := log }

theorem Refs.steps_got (h : s.Refs) {log : List Event}
    (hx : s.Got v x pfs log) : Steps C s (s.withVnode v x pfs log) := by
  have hself : (s.withVnode v x pfs log).vnode v = x := update_self ..
  have hother : ∀ w, w ≠ v → (s.withVnode v x pfs log).vnode w = s.vnode w := fun w hw => update_of_ne hw ..
  have hused : (s.vnode v).refCount = 0 → ∀ w, 0 < (s.vnode w).refCount → (s.withVnode v x pfs log).vnode w = s.vnode w := by
    intro hv w hw
    refine hother w ?_
    rintro rfl
    omega
  have hrefs : (s.setVnode v x).Refs → (s.withVnode v x pfs log).Refs := fun hset => hset.of_quiet { SameRefs.refl _ with } rfl
  cases hx with
  | old hv =>
    have hold := h.held v
    refine .single (.quiet ⟨fun p => ⟨_, _, rfl⟩, rfl, ⟨rfl, rfl⟩, rfl, .refl, fun _ _ hn hv => .inl ⟨hn, hv, rfl⟩,
      fun w _ _ => ?_, .inl rfl, .inl fun w => ?_⟩) (hrefs ?_)
    · by_cases hw : w = v
      · subst hw
        rw [hself]
      · rw [hother w hw]
    · by_cases hw : w = v
      · subst hw
        intro i _ huses
        rw [hself] at huses
        refine ⟨hv, huses, .inr ⟨?_, .inl rfl⟩⟩
        rw [hself]
        exact ⟨rfl, rfl, rfl⟩
      · exact .of_eq (hother w hw) fun _ => .inl rfl
    · exact h.setVnode rfl rfl (by simp only []; omega) (h.fifo v) (fun hx => h.mapped v (.inl hx))
        fun _ hfifo => h.piped v hv hfifo
  | file _ d _ _ hv hx htype hpipe hpfs =>
    refine .single (.quiet ⟨fun p => ⟨_, _, rfl⟩, rfl, ⟨rfl, rfl⟩, rfl, .refl, fun _ _ hn hv => .inl ⟨hn, hv, rfl⟩,
      fun w hw _ => ?_, ?_, .inl fun w => ?_⟩) (hrefs ?_)
    · rw [hused hv w hw]
    · rcases hpfs with hpfs | ⟨i, hnone, -, hlog⟩
      · exact .inl hpfs.2
      · exact .inr ⟨i, hnone, hlog⟩
    · by_cases hw : w = v
      · subst hw
        intro i _ huses
        rw [hself] at huses
        rcases huses with hm | ⟨hfs, -⟩
        · exact nomatch hpipe.1.symm.trans hm
        · exact nomatch hpipe.2.2.symm.trans hfs
      · rcases hpfs with hpfs | ⟨i, hnone, hpfs, -⟩
        · exact .of_eq (hother w hw) fun j => .inl (congrFun hpfs.1 j)
        refine .of_eq (hother w hw) fun j => ?_
        by_cases hji : j = i
        · exact .inr (hji ▸ hnone)
        · exact .inl (hpfs j hji)
    · refine h.setVnode_free hv hx (by simp [hpipe]) (fun hm => ?_) fun hused hfifo => ?_
      rcases hm with hm | hm
      · simp [hpipe] at hm
      · exact nomatch hpipe.2.2.symm.trans hm
      · rcases htype with htype | hzero
        · exact absurd hfifo htype
        · omega
  | pipe _ i hv hx htype hpipe hempty hpfs =>
    refine .single (.quiet ⟨fun p => ⟨_, _, rfl⟩, rfl, ⟨rfl, rfl⟩, rfl, .refl, fun _ _ hn hv => .inl ⟨hn, hv, rfl⟩,
      fun w hw _ => ?_, .inr ⟨i, hpfs, rfl⟩, .inr ⟨v, i, ⟨hv, fun j hj => ?_, ?_, ⟨hpfs, ?_⟩, rfl⟩, fun w hw => .of_eq (hother w hw) fun j => ?_⟩⟩)
      (hrefs ?_)
    · rw [hused hv w hw]
    · rw [hself] at hj
      rcases hj with hm | ⟨hfs, hm⟩
      · exact Option.some.inj (hm.symm.trans hpipe.1)
      · exact hm.symm.trans (hpipe.2.2 hfs)
    · rw [hself]
      exact hempty
    · exact update_self ..
    · by_cases hji : j = i
      · exact .inr (hji ▸ hpfs)
      · exact .inl (update_of_ne hji ..)
    · exact h.setVnode_free hv hx (fun _ => htype) (fun _ => htype) fun _ _ => by simp [hpipe]

/-- The filp of an open: it is counted once, for the vnode, and no select asks about it. -/
structure Opens (f : Filp) (v : VnodeNr) : Prop where
  count : f.count = 1
  vnode : f.vnode = some v
  selBusy : f.selBusy = false
  pos : f.pos.toNat < 2 ^ 32

/-- A filp that is not in use gets a vnode. -/
theorem Refs.steps_hold (h : s.Refs) (hn : (s.filp n).count ≤ 0)
    (hf : Opens f v)
    (hslack : (s.held v : Int) + 1 ≤ (s.vnode v).refCount) : Steps C s (s.setFilp n f) := by
  obtain ⟨hcount, hvnode, hbusy, hpos⟩ := hf
  have hrefs := fdRefs_eq_zero h hn
  have hzero : (s.setFilp n f).busyRefs n = 0 := by
    refine tally_eq_zero.mpr fun d => ?_
    rw [setFilp_filp_self]
    simp [hbusy]
  refine .single (.quiet (.setFilp fun _ _ _ => .inr (.inl hpos)))
    (h.setFilp (by omega) (fun _ => by omega) (fun w _ hw _ => ?_) (.inr hrefs))
  obtain rfl : v = w := Option.some.inj (hvnode.symm.trans hw)
  exact hslack

/-- A process that is not suspended gets a descriptor. -/
theorem Refs.steps_setFd (h : s.Refs) (hp : s.Idle p)
    (hcount : (s.fdRefs n : Int) + s.busyRefs n + 1 ≤ (s.filp n).count) (b : Bool) : Steps C s (s.setFd p fd (some n) b) := by
  refine .single (.quiet .setFd) (h.setFd (.inl hp.1) (fun m hm => ?_) (Waits.idle ?_))
  · obtain rfl : n = m := Option.some.inj hm
    exact hcount
  · rw [State.setFd, setProc_proc_self]
    exact hp.2

/-- One more descriptor for a filp in use. -/
theorem Refs.steps_dup (h : s.Refs) (hp : s.Idle p) (hn : 0 < (s.filp n).count) {fd : Fd} {b : Bool} :
    Steps C s ((s.setCount n ((s.filp n).count + 1)).setFd p fd (some n) b) := by
  have hold := h.busy n hn
  have hcount : Steps C s (s.setCount n ((s.filp n).count + 1)) := 
    h.steps_recount hn ⟨rfl, rfl, rfl⟩ (by simp only []; omega)
  refine hcount.trans ((hcount.refs h).steps_setFd hp ?_ b)
  rw [setCount, busyRefs_setFilp (by rfl), setFilp_filp_self]
  show (s.fdRefs n : Int) + s.busyRefs n + 1 ≤ (s.filp n).count + 1
  omega

end Minix.Vfs.State
