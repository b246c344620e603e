/-
  Vfs/CallSteps.lean --- the steps of the calls on descriptors.
-/
import Minix.Vfs.OpenSteps

set_option autoImplicit false

namespace Minix.Vfs

open Function

variable {rq : LockRequest} {t : LockTable} {why : Panic} {n : FilpNr} {fd : Fd}

/-! ## Locks -/

theorem scan_stop_ne_panic {first last : Int} {t' : LockTable} {empty conflict : Option LockNr}
    {result : LockResult} {l : List LockNr} (h : scan rq first last l t empty conflict = .stop result t') :
    result ≠ .panic := by
  induction l generalizing t empty conflict with
  | nil => exact absurd h (by simp [scan])
  | cons i rest ih =>
    rw [scan] at h
    split at h
    · exact ih h
    split at h
    · exact ih h
    split at h
    · simp at h
    split at h
    · simp only [Scan.stop.injEq] at h
      rw [← h.1]
      split <;> simp
    · split at h
      · simp only [Scan.stop.injEq] at h
        rw [← h.1]
        simp
      · exact ih h

/-- The panic of `lock_op` is for the position of a regular file. -/
theorem lockOp_eq_panic (h : (lockOp t rq).1 = .panic) : rq.regular = true ∧ rq.posHi ≠ 0#32 := by
  unfold lockOp at h
  split at h
  · simp at h
  split at h
  · simp at h
  split at h
  · simp at h
  split at h
  · simp at h
  rename_i hreg
  split at h
  · simp at h
  split_ifs at h with hpos
  · exact ⟨by simpa using hreg, hpos.2⟩
  split at h
  · simp at h
  split at h
  · rename_i hscan
    exact absurd h (scan_stop_ne_panic hscan)
  · unfold finish at h
    split at h
    · simp at h
    · split at h <;> simp at h

namespace State

open Foundation

variable {s s' s'' : State} {C : Cause → Prop} {p : ProcNr}

theorem le_of_extractLsb_ne_zero {x : BitVec 64} (h : x.extractLsb' 32 32 ≠ 0#32) : 2 ^ 32 ≤ x.toNat := by
  by_contra hlt
  refine h (BitVec.eq_of_toNat_eq ?_)
  rw [BitVec.extractLsb'_toNat, Nat.shiftRight_eq_div_pow, Nat.div_eq_of_lt (by omega)]
  simp

section

variable (h : s.Refs)
include h

theorem Refs.steps_panic (hwhy : s.Reason why) : Steps C s (s.panic why) :=
  .single (.panic why hwhy) (h.of_quiet { SameRefs.refl s with } rfl)

/-- A panic on a position. -/
theorem Refs.call_panic (hp : s.Idle p) (hwhy : s.Reason why) (r : Option Int) :
    CallSteps C s p (r, s.panic why) :=
  .same hp (h.steps_panic hwhy) rfl

theorem Refs.doLock_steps (hp : s.Idle p) (hn : 0 < (s.filp n).count) {fd : Int} {cmd : LockCmd}
    {k : Flock} : CallSteps C s p (s.doLock p fd n cmd k) := by
  unfold doLock
  simp only []
  generalize hrq : (LockRequest.mk cmd (s.proc p).pid k.copied k.type k.whence k.start k.len (s.filp n).readable
    (s.filp n).writable ((s.filp n).pos.extractLsb' 32 32) ((s.filp n).pos.setWidth 32) (((s.filp n).vnode.map Fin.val).getD 0)
    (decide (((s.filp n).vnode.map s.vnode).map Vnode.type = some .regular))
    (BitVec.ofInt 32 ((((s.filp n).vnode.map s.vnode).map Vnode.size).getD 0))) = rq
  have hlocks : Steps C s { s with locks := (lockOp s.locks rq).2 } := h.steps_tables (.single (.request s.locks rq)) s.dmap
  have hrefs := hlocks.refs h
  have hidle : ({ s with locks := (lockOp s.locks rq).2 } : State).Idle p := hp
  have hdone : ∀ r, CallSteps C s p (r, { s with locks := (lockOp s.locks rq).2 }) := fun r => .done hlocks hidle rfl
  generalize hres : (lockOp s.locks rq).1 = result
  cases result with
  | ok =>
    simp only []
    split
    · have hrun := hrefs.lockRevive_wakes (D := fun _ => False)
      exact .same hp (hlocks.trans (hrefs.steps_wakes hrun)) (((hrefs.wakes hrun).2.proc p).idle hp.2)
    · exact hdone _
  | einval | ebadf | eagain | enolck => exact hdone _
  | suspend =>
    have hproc := suspend_proc { s with locks := (lockOp s.locks rq).2 } p .lock ⟨fd, .fcntl, 0, 0⟩
    refine .suspended (hlocks.trans (hrefs.steps_suspend hidle (by simp) ?_)) ?_
    · unfold Waits
      simp [hproc]
    · rw [hproc]
  | panic =>
    refine CallSteps.of_steps hlocks rfl (hrefs.call_panic hidle ?_ _)
    obtain ⟨hreg, hpos⟩ := lockOp_eq_panic hres
    rw [← hrq] at hreg hpos
    simp only [decide_eq_true_eq, Option.map_eq_some_iff] at hreg
    obtain ⟨x, ⟨v, hv, rfl⟩, htype⟩ := hreg
    refine ⟨n, v, hn, hv, ?_, le_of_extractLsb_ne_zero hpos⟩
    rw [show (s.vnode v).type = _ from htype]
    simp [FileType.special]

/-! ## Descriptors -/

theorem Refs.getFd_steps {start : Nat} {readable writable : Bool} {s1 : State}
    (hget : s.getFd p start readable writable = .ok (fd, n, s1)) : Steps C s s1 ∧ s1.proc = s.proc ∧
      ∀ m, 0 < (s.filp m).count → s1.filp m = s.filp m := by
  obtain ⟨-, -, hn, rfl⟩ := getFd_eq_ok hget
  refine ⟨h.steps_fresh (by omega) hn, rfl, fun m hm => setFilp_filp_of_ne ?_⟩
  rintro rfl
  omega

/-- One more descriptor of a process for a filp in use. -/
theorem Refs.call_dup (hp : s.Idle p) (hn : 0 < (s.filp n).count) (fd : Fd) (b : Bool) (r : Option Int) :
    CallSteps C s p (r, (s.setCount n ((s.filp n).count + 1)).setFd p fd (some n) b) :=
  .moved hp (h.steps_dup hp hn) (setFd_fds (s.setCount n _) p fd (some n) b p)

theorem Refs.doDupfd_steps (hp : s.Idle p) (hn : 0 < (s.filp n).count) {start : Int} :
    CallSteps C s p (some (s.doDupfd p n start).1, (s.doDupfd p n start).2) := by
  unfold doDupfd
  split
  · exact .refl hp
  · rcases hget : s.getFd p start.toNat false false with r | ⟨fd, m, s1⟩
    · exact .refl hp
    · obtain ⟨hsteps, hproc, hfilp⟩ := h.getFd_steps (C := C) hget
      exact .of_steps hsteps (by rw [hproc]) ((hsteps.refs h).call_dup (hp.congr (by rw [hproc])) (by rw [hfilp n hn]; exact hn) fd _ _)

end

theorem fdOf_inj {k m : Int} (hk : fdOf k = some fd) (hm : fdOf m = some fd) : k = m := by
  unfold fdOf at hk hm
  split at hk
  · split at hm
    · simp only [Option.some.injEq] at hk hm
      have := congrArg Fin.val (hk.trans hm.symm)
      simp only [] at this
      omega
    · simp at hm
  · simp at hk

section

variable (h : s.Refs)
include h

variable (hp : s.Idle p)
include hp

theorem Refs.doDup_steps {fd : Int} {fd2 : Option Int} {truncated : Bool} :
    CallSteps C s p (some (s.doDup p fd fd2 truncated).1, (s.doDup p fd fd2 truncated).2) := by
  unfold doDup
  rcases hfilp : s.getFilp p fd with r | ⟨k, n⟩
  · exact .refl hp
  obtain ⟨hk, hn⟩ := getFilp_eq_ok hfilp
  have hcount := h.count_pos hn
  rcases fd2 with _ | m
  · rcases hget : s.getFd p 0 false false with r | ⟨fd', m, s1⟩
    · exact .refl hp
    · obtain ⟨hsteps, hproc, hsame⟩ := h.getFd_steps (C := C) hget
      exact .of_steps hsteps (by rw [hproc])
        ((hsteps.refs h).call_dup (hp.congr (by rw [hproc])) (by rw [hsame n hcount]; exact hcount) fd' true _)
  · simp only []
    rcases hm : fdOf m with _ | k2
    · exact .refl hp
    simp only []
    split_ifs with hne
    · exact .refl hp
    obtain ⟨hsteps, hclosed⟩ := h.closeFd_steps (C := C) hp.exits m truncated
    obtain ⟨hidle, hfds⟩ := hclosed.idle hp.2
    have hk' : fdOf m ≠ some k := fun hmk => hne (fdOf_inj hk hmk)
    have hrefs := hsteps.refs h
    exact .of_steps hsteps hclosed.endpoint (hrefs.call_dup ⟨hclosed.exits.1, hidle⟩
      (hrefs.count_pos (p := p) (by rw [hfds k hk']; exact hn)) k2 true _)

theorem Refs.closeFd_call {fd : Int} {truncated : Bool} :
    CallSteps C s p (some (s.closeFd p fd truncated).1, (s.closeFd p fd truncated).2) := by
  obtain ⟨hsteps, hclosed⟩ := h.closeFd_steps (C := C) hp.exits fd truncated
  exact .done hsteps ⟨hclosed.exits.1, (hclosed.idle hp.2).1⟩ hclosed.endpoint

/-! ## Positions and sizes -/

/-- Only a filp is written. -/
theorem Refs.call_filp {f : Filp}
    (hf : f.count = (s.filp n).count ∧ f.vnode = (s.filp n).vnode ∧ f.selBusy = (s.filp n).selBusy)
    (hpos : f.pos = (s.filp n).pos ∨ f.pos.toNat < 2 ^ 32 ∨ (∀ v, f.vnode = some v → (s.vnode v).type.special) ∨
      C (.seeks n f.pos)) (r : Option Int) : CallSteps C s p (r, s.setFilp n f) :=
  .same hp (h.steps_filp hf hpos) rfl

theorem Refs.seekTo_steps {newpos : BitVec 64} {inhibread : Int}
    (hpos : newpos.toNat < 2 ^ 32 ∨ C (.seeks n newpos)) :
    CallSteps C s p (some (s.seekTo n newpos inhibread).1, (s.seekTo n newpos inhibread).2) := by
  unfold seekTo
  split
  · exact .refl hp
  · exact h.call_filp hp (f := { s.filp n with pos := newpos }) ⟨rfl, rfl, rfl⟩ (.inr (hpos.imp id .inr)) _

theorem Refs.doLseek_steps {fd : Int} {offset : BitVec 32} {whence : Whence} {inhibread : Int} :
    CallSteps C s p (some (s.doLseek p fd offset whence inhibread).1, (s.doLseek p fd offset whence inhibread).2) := by
  unfold doLseek
  rcases s.getFilp p fd with r | ⟨k, n⟩
  · exact .refl hp
  simp only []
  split
  · exact .refl hp
  rcases s.seekBase n whence with _ | pos
  · exact .refl hp
  · simp only []
    split
    · exact .refl hp
    · exact h.seekTo_steps hp (.inl (by omega))

end

/-- The position that a seek with 64 bits sets. -/
def SeeksTo (s : State) (p : ProcNr) (fd : Int) (offset : BitVec 64) (whence : Whence) (n : FilpNr) (pos : BitVec 64) : Prop :=
  ∃ k base, s.getFilp p fd = .ok (k, n) ∧ s.seekBase n whence = some base ∧ pos = base + offset

theorem Refs.doLlseek_steps (h : s.Refs) (hp : s.Idle p) {fd : Int} {offset : BitVec 64} {whence : Whence} {inhibread : Int}
    (hC : ∀ n pos, s.SeeksTo p fd offset whence n pos → C (.seeks n pos)) :
    CallSteps C s p (some (s.doLlseek p fd offset whence inhibread).1, (s.doLlseek p fd offset whence inhibread).2) := by
  unfold doLlseek
  rcases hget : s.getFilp p fd with r | ⟨k, n⟩
  · exact .refl hp
  simp only []
  split
  · exact .refl hp
  rcases hbase : s.seekBase n whence with _ | pos
  · exact .refl hp
  · simp only []
    split
    · exact .refl hp
    · exact h.seekTo_steps hp (.inr (hC n _ ⟨k, pos, hget, hbase, rfl⟩))

theorem div_ne_zero_le {n : Nat} (h : n / 2 ^ 32 ≠ 0) : 2 ^ 32 ≤ n := by
  by_contra hlt
  exact h (Nat.div_eq_of_lt (by omega))

theorem Refs.doGetdents_steps (h : s.Refs) (hp : s.Idle p) {fd : Int} {reply : Int × BitVec 32} :
    CallSteps C s p (some (s.doGetdents p fd reply).1, (s.doGetdents p fd reply).2) := by
  unfold doGetdents
  rcases hget : s.getFilp p fd with r | ⟨k, n⟩
  · exact .refl hp
  obtain ⟨-, hn⟩ := getFilp_eq_ok hget
  simp only []
  split
  · exact .refl hp
  split
  · exact .refl hp
  rename_i hdir
  split
  · rename_i hpos
    refine h.call_panic hp ?_ _
    obtain ⟨v, hv, htype⟩ := Option.map_eq_some_iff.mp (not_not.mp hdir)
    exact ⟨n, v, h.count_pos hn, hv, by simp [FileType.special, htype], div_ne_zero_le hpos⟩
  · split
    · refine h.call_filp hp (n := n) (f := { s.filp n with pos := reply.2.setWidth 64 }) ⟨rfl, rfl, rfl⟩ (.inr (.inl ?_)) _
      rw [BitVec.toNat_setWidth]
      omega
    · exact .refl hp

theorem Refs.doFreesp_steps (h : s.Refs) (hp : s.Idle p) (hn : 0 < (s.filp n).count) {k : Flock} {copied reply : Int} :
    CallSteps C s p (some (s.doFreesp n k copied reply).1, (s.doFreesp n k copied reply).2) := by
  have hsame : (s.doFreesp n k copied reply).2 = s ∨
      ((s.doFreesp n k copied reply).2 = s.panic .freespPos ∧ s.Reason .freespPos) := by
    unfold doFreesp
    simp only []
    split
    · exact .inl rfl
    rename_i hreg
    split
    · exact .inl rfl
    split
    · exact .inl rfl
    split
    · rename_i hpos
      refine .inr ⟨rfl, ?_⟩
      simp only [ne_eq, not_not, Option.map_eq_some_iff] at hreg
      obtain ⟨x, ⟨v, hv, rfl⟩, htype⟩ := hreg
      exact ⟨n, v, hn, hv, by simp [FileType.special, htype], div_ne_zero_le hpos.2⟩
    · split
      · exact .inl rfl
      · split
        · exact .inl rfl
        · split <;> exact .inl rfl
  rcases hsame with heq | ⟨heq, hwhy⟩
  · rw [heq]
    exact .refl hp
  · rw [heq]
    exact h.call_panic hp hwhy _

/-! ## Truncation -/

theorem Refs.doFtruncate_steps (h : s.Refs) (hp : s.Idle p) {fd : Int} {length : BitVec 32} {ok : Bool}
    (hC : ∀ k n v, s.getFilp p fd = .ok (k, n) → (s.filp n).vnode = some v → (s.vnode v).type = .fifo → C (.truncates v)) :
    CallSteps C s p (some (s.doFtruncate p fd length ok).1, (s.doFtruncate p fd length ok).2) := by
  unfold doFtruncate
  rcases hget : s.getFilp p fd with r | ⟨k, n⟩
  · exact .refl hp
  obtain ⟨-, hn⟩ := getFilp_eq_ok hget
  simp only []
  split
  · exact .refl hp
  rcases hv : (s.filp n).vnode with _ | v
  · exact .refl hp
  · have hsteps := h.steps_truncateVnode (C := C) (h.refCount_pos (h.count_pos hn) hv) (hC k n v hget hv) length.toInt ok
    exact .same hp hsteps (by rw [truncateVnode_proc])

/-- A reference to a vnode that no filp has is given back. -/
theorem Refs.steps_put (h : s.Refs) {v : VnodeNr} (hv : (s.held v : Int) < (s.vnode v).refCount) :
    Steps C s (s.putVnode v) :=
  .single (.quiet (.putVnode (fun _ => ⟨_, _, rfl⟩) ⟨rfl, rfl, rfl, rfl, rfl, rfl, rfl⟩ (fun _ _ hn hw => ⟨hn, hw, rfl⟩)
    (by omega) fun _ => .inl rfl)) (h.putVnode hv)

theorem Refs.doTruncate_steps (h : s.Refs) (hp : s.Idle p) {found : Found} (access : Int) (length : BitVec 32) (ok : Bool)
    (hC : ∀ info c v s1, found = .node info c → s.getVnode info = .ok (v, s1) → 0 < (s.vnode v).refCount →
      (s.vnode v).type = .fifo → C (.truncates v)) :
    CallSteps C s p (some (s.doTruncate found access length ok).1, (s.doTruncate found access length ok).2) := by
  unfold doTruncate
  rcases found with r | ⟨info, c⟩
  · exact .refl hp
  simp only []
  rcases hget : s.getVnode info with r | ⟨v, s1⟩
  · exact .refl hp
  simp only []
  -- The truncation, if it is allowed
  generalize hs2 : (if access = 0 then s1.truncateVnode v length.toInt ok else (access, s1)) = out
  have hout : out.2 = s1 ∨ ∃ pfs, out.2 = setSize { s1 with pfs := pfs } v length.toInt ∧
      ((s1.vnode v).fs ≠ .pfs → pfs = s1.pfs) := by
    rw [← hs2]
    split
    · refine (truncateVnode_eq s1).imp_right fun ⟨pfs, heq, hpfs⟩ => ⟨pfs, heq, fun hfs => ?_⟩
      exact funext fun i => (hpfs i).resolve_right fun hi => hfs hi.1.1
    · exact .inl rfl
  have hfields : out.2.proc = s1.proc ∧ out.2.held v = s1.held v ∧ (out.2.vnode v).refCount = (s1.vnode v).refCount := by
    rcases hout with heq | ⟨pfs, heq, -⟩
    · rw [heq]
      exact ⟨rfl, rfl, rfl⟩
    · rw [heq, setSize_vnode_self]
      exact ⟨rfl, rfl, rfl⟩
  obtain ⟨hproc, hheld, hcount⟩ := hfields
  rcases getVnode_eq_ok hget with ⟨hv, rfl⟩ | ⟨hv, rfl⟩
  · -- The vnode is in use: one more reference to it, for the time of the call.
    have hC' := hC info c v _ rfl hget hv
    have hgot : Steps C s (s.setVnode v { s.vnode v with refCount := (s.vnode v).refCount + 1 }) := h.steps_got (.old hv)
    have hrefs := hgot.refs h
    have hself : (s.setVnode v { s.vnode v with refCount := (s.vnode v).refCount + 1 }).vnode v =
        { s.vnode v with refCount := (s.vnode v).refCount + 1 } := setVnode_vnode_self
    have hone : ((s.setVnode v { s.vnode v with refCount := (s.vnode v).refCount + 1 }).vnode v).refCount =
        (s.vnode v).refCount + 1 := by rw [hself]
    have htrunc : Steps C (s.setVnode v { s.vnode v with refCount := (s.vnode v).refCount + 1 }) out.2 := by
      rw [← hs2]
      split
      · refine hrefs.steps_truncateVnode (by omega) ?_ length.toInt ok
        rw [hself]
        exact hC'
      · exact .refl _
    have hold : (State.held (s.setVnode v { s.vnode v with refCount := (s.vnode v).refCount + 1 }) v : Int) ≤
      (s.vnode v).refCount := h.held v
    have hput := (htrunc.refs hrefs).steps_put (C := C) (v := v) (by omega)
    refine .same hp (hgot.trans (htrunc.trans hput)) ?_
    rw [putVnode_proc, hproc]
    rfl
  · -- The vnode is free again after the call.
    have hself : (s.setVnode v (info.fill (s.vnode v))).vnode v = info.fill (s.vnode v) := setVnode_vnode_self
    have hstate : ∃ size, out.2 = s.withVnode v { info.fill (s.vnode v) with size := size } s.pfs s.log := by
      rcases hout with heq | ⟨pfs, heq, hpfs⟩
      · exact ⟨(info.fill (s.vnode v)).size, heq⟩
      · refine ⟨length.toInt, ?_⟩
        rw [heq, hpfs (by rw [hself]; simp [NodeInfo.fill])]
        unfold setSize State.setVnode withVnode
        simp only [update_self, update_idem]
    obtain ⟨size, hstate⟩ := hstate
    have hput : out.2.putVnode v = s.withVnode v
        { info.fill (s.vnode v) with size := size, refCount := 0, pipe := false, sdev := none, mapped := none } s.pfs s.log := by
      rw [hstate]
      have hv' : (s.withVnode v { info.fill (s.vnode v) with size := size } s.pfs s.log).vnode v =
          { info.fill (s.vnode v) with size := size } := update_self ..
      unfold State.putVnode
      rw [hv']
      have hone : ¬ 1 < ({ info.fill (s.vnode v) with size := size } : Vnode).refCount := by simp [NodeInfo.fill]
      simp only [if_neg hone]
      unfold putPfs State.setVnode withVnode
      simp only [NodeInfo.fill, update_idem]
    have hsteps : Steps C s (out.2.putVnode v) := by
      rw [hput]
      exact h.steps_got (.file _ info.fs s.pfs s.log hv le_rfl (.inr rfl) ⟨rfl, rfl, rfl⟩ (.inl ⟨rfl, rfl⟩))
    exact .same hp hsteps (by rw [hput]; rfl)

/-! ## Devices -/

/-- A process waits for a driver. -/
theorem Refs.steps_driver (h : s.Refs) (hp : s.Idle p) {f : Fproc} (hwhy : f.blockedOn = .other)
    (hf : f = { s.proc p with
      blockedOn := f.blockedOn, saved := f.saved, task := f.task, grant := f.grant, suspReopen := f.suspReopen })
    (hsaved : ∀ k n v, fdOf f.saved.fd = some k → (s.proc p).fds k = some n → (s.filp n).vnode = some v →
      (s.vnode v).type.special) : CallSteps C s p (none, s.setProc p f) := by
  have hfields : f.pid = (s.proc p).pid ∧ f.endpoint = (s.proc p).endpoint ∧ f.fds = (s.proc p).fds := by
    rw [hf]
    exact ⟨rfl, rfl, rfl⟩
  refine .suspended (.single (.wait p f hp (by simp [hwhy]) hf) ?_) (by rw [setProc_proc_self]; exact hfields.2.1)
  refine h.setProc hfields.1 hfields.2.1 hfields.2.2 ?_
  unfold Waits
  simp only [setProc_proc_self, hwhy]
  intro v hv
  obtain ⟨k, n, hk, hn, hv⟩ := savedVnode_eq_some hv
  rw [setProc_proc_self] at hk hn
  rw [hfields.2.2] at hn
  exact hsaved k n v hk hn hv

theorem setProc_setProc (s : State) (p : ProcNr) (f g : Fproc) : (s.setProc p f).setProc p g = s.setProc p g := by
  unfold setProc
  simp only [update_idem]

theorem waitFor_eq (s : State) (p : ProcNr) (who : Endpoint) (saved : SavedCall) : s.waitFor p who saved =
    s.setProc p { s.proc p with blockedOn := .other, saved := saved, suspReopen := false, task := who } := by
  unfold waitFor suspend
  simp only [reduceCtorEq, if_false, setProc_proc_self, setProc_setProc]

theorem Refs.devIo_steps (h : s.Refs) (hp : s.Idle p) (dev : Option (Major × Nat)) (nonblock asyncDriver suspendReopen : Bool)
    (saved : SavedCall) (a : DevReply)
    (hsaved : ∀ k n v, fdOf saved.fd = some k → (s.proc p).fds k = some n → (s.filp n).vnode = some v →
      (s.vnode v).type.special) : CallSteps C s p (s.devIo p dev nonblock asyncDriver suspendReopen saved a) ∧
        ((s.devIo p dev nonblock asyncDriver suspendReopen saved a).1.isSome = true →
          (s.devIo p dev nonblock asyncDriver suspendReopen saved a).2.filp = s.filp ∧
          (s.devIo p dev nonblock asyncDriver suspendReopen saved a).2.vnode = s.vnode) := by
  -- The process is suspended.
  have hwait : ∀ driver grant reopen,
      CallSteps C s p (none, s.setProc p { s.proc p with
        blockedOn := .other, saved := saved, task := driver, grant := grant, suspReopen := reopen }) :=
    fun driver grant reopen => h.steps_driver hp rfl rfl hsaved
  unfold devIo
  split
  · exact ⟨.refl hp, fun _ => ⟨rfl, rfl⟩⟩
  rename_i driver _
  split
  · refine ⟨?_, fun hsome => nomatch hsome⟩
    simp only [waitFor_eq, setProc_proc_self, setProc_setProc]
    exact hwait driver none true
  · split
    · exact ⟨.refl hp, fun _ => ⟨rfl, rfl⟩⟩
    split
    · refine ⟨.same hp (h.steps_tables .refl _) rfl, fun _ => ⟨rfl, rfl⟩⟩
    rcases a.status with _ | r
    · simp only []
      split
      · exact ⟨.refl hp, fun _ => ⟨rfl, rfl⟩⟩
      · refine ⟨?_, fun hsome => nomatch hsome⟩
        simp only [waitFor_eq, setProc_proc_self, setProc_setProc]
        exact hwait driver (some a.grant) false
    · exact ⟨.refl hp, fun _ => ⟨rfl, rfl⟩⟩

theorem Refs.doIoctl_steps (h : s.Refs) (hp : s.Idle p) {fd request : Int} {a : DevReply} :
    CallSteps C s p (s.doIoctl p fd request a) := by
  unfold doIoctl
  rcases hget : s.getFilp p fd with r | ⟨k, n⟩
  · exact .refl hp
  obtain ⟨hk, hn⟩ := getFilp_eq_ok hget
  simp only []
  rcases hv : (s.filp n).vnode with _ | v
  · exact .refl hp
  simp only []
  split_ifs with hspecial
  · exact .refl hp
  refine (h.devIo_steps hp _ _ _ _ _ a fun k' n' v' hk' hn' hv' => ?_).1
  obtain rfl : k = k' := Option.some.inj (hk.symm.trans hk')
  obtain rfl : n = n' := Option.some.inj (hn.symm.trans hn')
  obtain rfl : v = v' := Option.some.inj (hv.symm.trans hv')
  by_contra hnot
  exact hspecial (not_or.mp hnot)

end State

end Minix.Vfs
