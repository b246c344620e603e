/-
  Vfs/LockRun.lean --- record locks in the runs of the file system.

  Whatever processes request, unlock and close, two of them never have locks on the same
  byte of which one is for writing, and F_GETLK finds a lock that is in the way.  When a lock
  goes, the processes that wait for locks are told to try again, but for the initial process
  and the servers; an F_UNLCK that has shortened a lock and then fails tells nobody.
-/
import Minix.Vfs.Runs

set_option autoImplicit false

namespace Minix.Vfs

open Relation

variable {t t' : LockTable} {rq : LockRequest} {first last : Int} {l : FileLock} {i : LockNr} {pid : Nat}

/-! ## Exclusion -/

namespace LockTable

/-- A slot is written with something that the table gives already. -/
theorem within_set {o : Option FileLock} {n : Int}
    (h : ∀ l, o = some l → ∀ pid vnode b mode, l.gives pid vnode b mode → t.Holds pid vnode b mode) :
    (t.set i o n).Within t := by
  rintro pid vnode b mode ⟨j, l, hl, hgives⟩
  by_cases hj : j = i
  · subst hj
    rw [set_slot_self] at hl
    exact h l hl pid vnode b mode hgives
  · rw [set_slot_of_ne hj] at hl
    exact ⟨j, l, hl, hgives⟩

/-- Nobody else has a lock on a byte that is locked for writing. -/
def Exclusive (t : LockTable) : Prop :=
  ∀ pid pid' vnode b mode, t.Holds pid vnode b .wr → t.Holds pid' vnode b mode → pid = pid'

theorem Exclusive.within (h : t.Exclusive) (ht : t'.Within t) : t'.Exclusive :=
  fun pid pid' vnode b mode hw hm => h pid pid' vnode b mode (ht _ _ _ _ hw) (ht _ _ _ _ hm)

end LockTable

namespace LockTable

theorem Exclusive.step (h : t.Exclusive) (hwf : t.Wf) (hstep : LockStep t t') : t'.Exclusive := by
  cases hstep with
  | close pid vnode =>
    exact releaseLocks_rule h (fun u i l hu _ => hu.within (within_set (by simp))) pid vnode
  | request rq =>
    have hout := lockOp_outcome hwf rq
    generalize lockOp t rq = out at hout
    cases hout with
    | refused | read | full => exact h
    | unlocked _ _ _ _ _ _ _ _ _ hwithin => exact h.within hwithin
    | broken _ _ _ _ _ _ _ _ hwithin => exact h.within hwithin
    | locked first last mode i _ htype _ hfree hclear =>
      -- A lock of another process on the byte would have been in the way.
      have hother : ∀ pid b m m', (⟨mode, rq.pid, rq.vnode, first, last⟩ : FileLock).gives rq.pid rq.vnode b m →
          t.Holds pid rq.vnode b m' → (m = .wr ∨ m' = .wr) → pid = rq.pid := by
        rintro pid b m m' ⟨-, -, rfl, hlo, hhi⟩ ⟨j, l, hl, hgives⟩ hwr
        by_contra hpid
        refine hclear j l hl ⟨hgives.overlaps hlo hhi, fun hl => hpid (hgives.1.symm.trans hl), ?_⟩
        rw [htype, hgives.2.2.1]
        exact hwr.symm.imp id (congrArg _)
      intro pid pid' vnode b m hw hm
      rw [LockTable.holds_add hfree] at hw hm
      rcases hw with hw | hw <;> rcases hm with hm | hm
      · exact hw.1.symm.trans hm.1
      · have hnew := hw
        obtain ⟨rfl, rfl, -⟩ := hw
        exact (hother pid' b .wr m hnew hm (.inl rfl)).symm
      · have hnew := hm
        obtain ⟨rfl, rfl, -⟩ := hm
        exact hother pid b m .wr hnew hw (.inr rfl)
      · exact h pid pid' vnode b m hw hm

theorem Reachable.exclusive (h : t.Reachable) : t.Exclusive := by
  induction h with
  | refl =>
    rintro pid pid' vnode b mode ⟨i, l, hl, -⟩
    exact absurd hl (by simp [empty])
  | tail hrun hstep ih => exact ih.step (Reachable.wf hrun) hstep

end LockTable

/-- Two locks that may be set at the same time. -/
def FileLock.Apart (l l' : FileLock) : Prop :=
  l.vnode = l'.vnode → l.pid ≠ l'.pid → l.mode = .wr ∨ l'.mode = .wr → l.last < l'.first ∨ l'.last < l.first

theorem LockTable.Reachable.apart (h : t.Reachable) {j : LockNr} {l' : FileLock} (hl : t.slot i = some l)
    (hl' : t.slot j = some l') : l.Apart l' := by
  intro hv hpid hwr
  by_contra hover
  have h1 := h.wf.nonempty i l hl
  have h2 := h.wf.nonempty j l' hl'
  -- The later one of the first bytes is in both.
  have hb : t.Holds l.pid l.vnode (max l.first l'.first) l.mode := ⟨i, l, hl, rfl, rfl, rfl, by omega, by omega⟩
  have hb' : t.Holds l'.pid l.vnode (max l.first l'.first) l'.mode := ⟨j, l', hl', rfl, hv.symm, rfl, by omega, by omega⟩
  rcases hwr with hmode | hmode
  · exact hpid (h.exclusive _ _ _ _ _ (hmode ▸ hb) hb')
  · exact hpid (h.exclusive _ _ _ _ _ (hmode ▸ hb') hb).symm

/-! ## F_GETLK -/

/-- The lock that F_GETLK tells the process about; with `none` the type that is copied back is
F_UNLCK. -/
def reported (t : LockTable) (rq : LockRequest) : Option FileLock :=
  match rq.range with
  | none => none
  | some (first, last) =>
      match scan rq first last (List.finRange nrLocks) t none none with
      | .stop _ _ => none
      | .done t1 _ conflict => conflict.bind t1.slot

/-- A lock is reported if and only if there is one in the way. -/
def Reports (t : LockTable) (rq : LockRequest) : Prop :=
  ∃ first last, rq.range = some (first, last) ∧
    (∀ l, reported t rq = some l → (∃ i, t.slot i = some l) ∧ l.Conflicts rq first last) ∧
    ((reported t rq).isSome ↔ ∃ i l, t.slot i = some l ∧ l.Conflicts rq first last)

theorem reports_of_ok (hget : rq.cmd = .getlk) (hok : (lockOp t rq).1 = .ok) : Reports t rq := by
  rcases lockOp_scan with ⟨r, hr, -, heq⟩ | ⟨first, last, hrange, hother, hnot, heq⟩ <;> rw [heq] at hok
  · exact absurd hok hr
  refine ⟨first, last, hrange, ?_⟩
  unfold reported
  rw [hrange]
  simp only []
  rcases @scan_lock rq first last (.inl hget) (List.finRange nrLocks) t none none (by simp) with
    ⟨r, hstop, hr⟩ | ⟨e, c, hdone, -⟩
  · rw [hstop] at hok
    exact absurd hok hr
  rw [hdone]
  obtain ⟨mode, htype⟩ : ∃ mode, rq.type = .lock mode := by
    rcases htype : rq.type with mode | _ | _
    · exact ⟨mode, rfl⟩
    · exact absurd ⟨hget, htype⟩ hnot
    · exact absurd htype hother
  rcases scan_done htype hdone with ⟨rfl, hclear⟩ | ⟨-, i, l, rfl, -, hl, hconf⟩
  · refine ⟨fun l hl => absurd hl (by simp), iff_of_false (by simp) ?_⟩
    rintro ⟨i, l, hl, hconf⟩
    exact hclear i (List.mem_finRange i) l hl hconf
  · simp only [Option.bind_some, hl]
    refine ⟨fun l' hl' => ?_, iff_of_true rfl ⟨i, l, hl, hconf⟩⟩
    obtain rfl := Option.some.inj hl'
    exact ⟨⟨i, hl⟩, hconf⟩

/-! ## Locks that go -/

/-- A lock is removed or shortened. -/
def LockTable.Loses (t t' : LockTable) : Prop := ∃ i l, t.slot i = some l ∧ t'.slot i ≠ some l

theorem LockTable.not_loses_self (t : LockTable) : ¬ t.Loses t := fun ⟨_, _, hl, hne⟩ => hne hl

/-- When no lock has been found in the range, the table is as it was. -/
theorem scan_conflict {is : List LockNr} {empty conflict e : Option LockNr}
    (h : scan rq first last is t empty conflict = .done t' e none) : conflict = none ∧ t' = t := by
  induction is generalizing t empty conflict with
  | nil =>
    cases h
    exact ⟨rfl, rfl⟩
  | cons i rest ih =>
    rw [scan] at h
    split at h
    · exact ih h
    split at h
    · exact ih h
    split at h
    · cases h
    split at h
    · cases h
    split at h
    · cases h
    · cases (ih h).1

/-- A close leaves the table as it was, or there are fewer locks. -/
theorem releaseLocks_cases {t : LockTable} {pid vnode : Nat} :
    releaseLocks t pid vnode = t ∨ (releaseLocks t pid vnode).count < t.count := by
  refine releaseLocks_rule (P := fun u => u = t ∨ u.count < t.count) (.inl rfl) (fun u i l hu _ => .inr ?_) pid vnode
  show u.count - 1 < t.count
  rcases hu with rfl | hu <;> omega

/-- If locks run out on the way of an F_UNLCK, they run out at the first lock in its range. -/
def UnlockFits (t : LockTable) (rq : LockRequest) : Prop :=
  rq.type = .unlock → (lockOp t rq).1 = .enolck → ∀ first last, rq.range = some (first, last) →
    FullSplit t rq first last (List.finRange nrLocks)

/-- After a request in which no lock has gone, or one after which `lock_revive` is called. -/
theorem lockOp_loses (hwf : t.Wf) (hfits : UnlockFits t rq) (hloses : t.Loses (lockOp t rq).2) :
    (lockOp t rq).1 = .ok ∧ unlocking t rq = true := by
  have hout := lockOp_outcome hwf rq
  generalize hop : lockOp t rq = out at hout hloses
  cases hout with
  | refused | read | full => exact absurd hloses t.not_loses_self
  | locked first last mode i _ _ _ hfree =>
    obtain ⟨j, l, hl, hne⟩ := hloses
    rw [LockTable.set_slot_of_ne] at hne
    · exact absurd hl hne
    · rintro rfl
      exact nomatch hfree.symm.trans hl
  | unlocked first last t1 hcmd htype hrange =>
    refine ⟨rfl, ?_⟩
    rcases lockOp_scan with ⟨r, hr, -, heq⟩ | ⟨first', last', hrange', -, -, heq⟩ <;> rw [hop] at heq
    · exact absurd (Prod.mk.inj heq).1.symm hr
    unfold unlocking
    simp only [htype, hrange', decide_true, Bool.true_and]
    have hun := scan_unlock hcmd htype (LockRequest.range_le hrange') t none none hwf
      (List.nodup_finRange _) fun i hi => absurd (List.mem_finRange i) hi
    rcases hscan : scan rq first' last' (List.finRange nrLocks) t none none with ⟨r, t2⟩ | ⟨t2, e, _ | c⟩ <;>
      rw [hscan] at heq hun
    · cases hun <;> simp at heq
    · obtain ⟨-, rfl⟩ := scan_conflict hscan
      simp only [finish, if_neg hcmd, htype] at heq
      obtain rfl := (Prod.mk.inj heq).2
      exact absurd hloses t1.not_loses_self
    · rfl
  | broken first last t1 htype hrange _ _ hfull => exact absurd (hfits htype (by rw [hop]) first last hrange) hfull

/-! ## Processes that wait -/

/-- The process waits for a lock, and has not been told to try again. -/
def Fproc.Asleep (f : Fproc) : Prop := f.endpoint.isSome = true ∧ f.blockedOn = .lock ∧ f.revived = false

theorem Fproc.Woken.asleep_of {f g : Fproc} (h : f.Woken g) (hg : g.Asleep) : f.Asleep := by
  rcases h.asleep (by simp [hg.2.1]) with rfl | rfl
  · exact hg
  · exact nomatch hg.2.2

namespace State

variable {s s' : State} {p q : ProcNr} {e : Endpoint} {n : FilpNr}

/-- All processes that wait for a lock without having been told to try again are looked at by
`lock_revive`. -/
def Heard (s : State) : Prop := ∀ q, (s.proc q).Asleep → initProcNr < q.val

theorem lockReviveOne_self (h : s.Refs) (hp : initProcNr < p.val) : ¬ ((s.lockReviveOne p).proc p).Asleep := by
  intro hasleep
  have hold := ((h.wakes (s.lockReviveOne_wakes (D := fun _ => False) p)).2.proc p).asleep_of hasleep
  obtain ⟨e, hend⟩ := Option.isSome_iff_exists.mp hold.1
  unfold lockReviveOne at hasleep
  rw [if_pos ⟨hp, h.live_of_endpoint hend, hold.2.1⟩, hend] at hasleep
  simp only [revive, h.isokendpt_iff.mpr hend, hold.2.1, hold.2.2] at hasleep
  exact absurd hasleep.2.2 (by simp [mark, setProc_proc_self])

/-- After `lock_revive` everybody who waits has been told. -/
theorem Refs.lockRevive_asleep (h : s.Refs) (hheard : s.Heard) (q : ProcNr) : ¬ (s.lockRevive.proc q).Asleep := by
  have hloop : ∀ (l : List ProcNr) (s : State), s.Refs → (∀ q, (s.proc q).Asleep → initProcNr < q.val ∧ q ∈ l) →
      ∀ q, ¬ ((l.foldl lockReviveOne s).proc q).Asleep := by
    intro l
    induction l with
    | nil => exact fun s _ hs q hq => nomatch (hs q hq).2
    | cons p rest ih =>
      intro s h hs
      obtain ⟨hrefs, hframe⟩ := h.wakes (s.lockReviveOne_wakes (D := fun _ => False) p)
      refine ih _ hrefs fun q hq => ?_
      obtain ⟨hinit, hmem⟩ := hs q ((hframe.proc q).asleep_of hq)
      refine ⟨hinit, (List.mem_cons.mp hmem).resolve_left ?_⟩
      rintro rfl
      exact lockReviveOne_self h hinit hq
  unfold lockRevive
  exact hloop (List.finRange nrProcs) s h (fun q hq => ⟨hheard q hq, List.mem_finRange q⟩) q

/-- The locks are as they were, or everybody who waits has been told; and nobody else waits. -/
structure Told (s s' : State) : Prop where
  locks : s'.locks = s.locks ∨ ∀ q, ¬ (s'.proc q).Asleep
  asleep : ∀ q, (s'.proc q).Asleep → (s.proc q).Asleep

theorem Told.trans {s'' : State} (h : s.Told s') (h' : s'.Told s'') : s.Told s'' where
  locks := by
    rcases h.locks with heq | hnone
    · exact heq ▸ h'.locks
    · exact .inr fun q hq => hnone q (h'.asleep q hq)
  asleep q hq := h.asleep q (h'.asleep q hq)

theorem Told.of_eq (hlocks : s'.locks = s.locks) (h : ∀ q, (s'.proc q).Asleep → (s.proc q).Asleep) : s.Told s' := ⟨.inl hlocks, h⟩

theorem Frame.told (h : s.Frame s') : s.Told s' := .of_eq h.locks fun q hq => (h.proc q).asleep_of hq

theorem Refs.closeFd_told (h : s.Refs) (hp : s.Exits p) (hheard : s.Heard) (k : Int) (truncated : Bool) :
    s.Told (s.closeFd p k truncated).2 := by
  unfold closeFd
  rcases hget : s.getFilp p k with r | ⟨fd, n⟩
  · exact .of_eq rfl fun _ hq => hq
  obtain ⟨hfd, hn⟩ := getFilp_eq_ok hget
  simp only []
  obtain ⟨hsteps, -, hlocks, s1, hwoken, hproc⟩ := h.giveBack_steps (C := fun _ => True) hp hfd hn truncated
  generalize (s.closeFilp n truncated).setFd p fd none false = t at hsteps hlocks hproc ⊢
  have hasleep : ∀ q, (t.proc q).Asleep → (s.proc q).Asleep := by
    intro q hq
    obtain ⟨fds, inuse, heq⟩ := hproc q
    rw [heq] at hq
    exact (hwoken q).asleep_of hq
  rcases (s.filp n).vnode with _ | v
  · exact .of_eq hlocks hasleep
  simp only []
  rcases releaseLocks_cases with heq | hless
  · rw [heq, if_neg (lt_irrefl _)]
    exact .of_eq hlocks hasleep
  · rw [if_pos hless]
    have hrefs := ((hsteps.refs h).steps_tables (C := fun _ => True) (.single (.close t.locks (t.proc p).pid v.val)) t.dmap).refs (hsteps.refs h)
    have hnone := hrefs.lockRevive_asleep fun q hq => hheard q (hasleep q hq)
    exact ⟨.inr hnone, fun q hq => absurd hq (hnone q)⟩

theorem Heard.told (h : s.Heard) (ht : s.Told s') : s'.Heard := fun q hq => h q (ht.asleep q hq)

theorem Refs.freeProc_told (h : s.Refs) (hp : s.isokendpt e = some p) (hheard : s.Heard) {cancel : Option Int}
    {truncated : Fd → Bool} : s.Told (s.freeProc p e cancel truncated) := by
  have hend := (isokendpt_eq_some hp).1
  unfold freeProc
  simp only []
  generalize hs1 : (if s.blocked p = true then s.unpause e cancel else s) = s1
  have hfirst : s1.Refs ∧ s1.Exits p ∧ s.Told s1 := by
    rw [← hs1]
    split_ifs with hidle
    · have hun := h.unpause_spec hp cancel
      refine ⟨hun.refs, ⟨?_, hun.exits⟩, .of_eq hun.rest.1 fun q hq => ?_⟩
      · rw [live_congr hun.slot.1]
        exact h.live_of_endpoint hend
      · by_cases hqp : q = p
        · rw [hqp] at hq
          rcases hun.exits with hb | hb | hb <;> cases hb.symm.trans hq.2.1
        · exact hun.rest.2 q hqp ▸ hq
    · exact ⟨h, ⟨h.live_of_endpoint hend, .inl (by simpa [blocked] using hidle)⟩, .of_eq rfl fun _ hq => hq⟩
  obtain ⟨hrefs1, hexits1, htold1⟩ := hfirst
  have hclose : ∀ (l : List Fd) (s : State), s.Refs → s.Exits p → s.Heard →
      let t := l.foldl (fun s fd => (s.closeFd p fd.val (truncated fd)).2) s
      s.Told t ∧ t.Refs := by
    intro l
    induction l with
    | nil => exact fun s h _ _ => ⟨.of_eq rfl fun _ hq => hq, h⟩
    | cons fd rest ih =>
      intro s h hp hheard
      obtain ⟨hsteps, hclosed⟩ := h.closeFd_steps (C := fun _ => True) hp fd.val (truncated fd)
      have htold := h.closeFd_told hp hheard fd.val (truncated fd)
      obtain ⟨htold', hrefs⟩ := ih _ (hsteps.refs h) hclosed.exits (hheard.told htold)
      exact ⟨htold.trans htold', hrefs⟩
  obtain ⟨htold2, hrefs2⟩ := hclose (List.finRange openMax) s1 hrefs1 hexits1 (hheard.told htold1)
  generalize (List.finRange openMax).foldl (fun s fd => (s.closeFd p fd.val (truncated fd)).2) s1 = s2 at htold2 hrefs2
  have htold3 := (hrefs2.wakes (hrefs2.unsuspendByEndpt_wakes e)).2.told
  generalize s2.unsuspendByEndpt e = s3 at htold3
  refine ((htold1.trans htold2).trans htold3).trans (.of_eq rfl fun q hq => ?_)
  by_cases hqp : q = p
  · rw [hqp, setProc_proc_self] at hq
    cases hq.1
  · rwa [setProc_proc_of_ne _ _ hqp] at hq

/-! ## Requests -/

/-- What `lock_op` reads for a request. -/
def lockRequest (s : State) (p : ProcNr) (n : FilpNr) (cmd : LockCmd) (k : Flock) : LockRequest where
  cmd := cmd
  pid := (s.proc p).pid
  copied := k.copied
  type := k.type
  whence := k.whence
  start := k.start
  len := k.len
  readable := (s.filp n).readable
  writable := (s.filp n).writable
  posHi := (s.filp n).pos.extractLsb' 32 32
  posLo := (s.filp n).pos.setWidth 32
  vnode := ((s.filp n).vnode.map Fin.val).getD 0
  regular := decide (((s.filp n).vnode.map s.vnode).map Vnode.type = some .regular)
  size := BitVec.ofInt 32 ((((s.filp n).vnode.map s.vnode).map Vnode.size).getD 0)

theorem Refs.doLock_told (h : s.Refs) (hwf : s.locks.Wf) (hheard : s.Heard) {fd : Int} {cmd : LockCmd} {k : Flock}
    (hfits : UnlockFits s.locks (s.lockRequest p n cmd k)) (hloses : s.locks.Loses (s.doLock p fd n cmd k).2.locks) :
    ∀ q, ¬ ((s.doLock p fd n cmd k).2.proc q).Asleep := by
  have hrefs := (h.steps_tables (C := fun _ => True) (.single (.request s.locks (s.lockRequest p n cmd k))) s.dmap).refs h
  have hlocks : (s.doLock p fd n cmd k).2.locks = (lockOp s.locks (s.lockRequest p n cmd k)).2 := by
    unfold doLock
    simp only []
    split
    · split
      · exact (hrefs.wakes (hrefs.lockRevive_wakes (D := fun _ => False))).2.locks
      · rfl
    all_goals rfl
  rw [hlocks] at hloses
  obtain ⟨hok, hun⟩ := lockOp_loses hwf hfits hloses
  have heq : (s.doLock p fd n cmd k).2 = ({ s with locks := (lockOp s.locks (s.lockRequest p n cmd k)).2 } : State).lockRevive := by
    unfold lockRequest at hok hun
    unfold doLock
    simp only [hok, hun, if_true]
    rfl
  rw [heq]
  exact hrefs.lockRevive_asleep hheard

end State

/-! ## Runs -/

open State

/-- The states of all runs, and those in which `get_work` has taken a process: the request of one
that has waited for a lock is then made again, and a pipe has been tried again. -/
inductive LockRun : State → Prop
  | start {s : State} (hinit : s.Initial) (hlocks : s.locks = .empty) : LockRun s
  | iterate {s s' : State} {input : Input} (h : LockRun s) (hit : Iterates s input s') : LockRun s'
  | take {s : State} {p : ProcNr} (h : LockRun s) (hlive : s.live p = true) (hrev : (s.proc p).revived = true) :
      LockRun (s.take p)
  | retryPipe {s : State} {p : ProcNr} {e : Endpoint} (h : LockRun s) (hlive : s.live p = true)
      (hrev : (s.proc p).revived = true) (hpipe : (s.proc p).blockedOn = .pipe) (hend : (s.proc p).endpoint = some e)
      (c : Copy) : LockRun ((s.take p).retryPipe p e (s.proc p).saved c)

variable {s s' : State}

theorem State.Op.locks {C : Cause → Prop} (h : s.Op C s') (hrefs : s.Refs) : ReflTransGen LockStep s.locks s'.locks := by
  have hof : s'.locks = s.locks → ReflTransGen LockStep s.locks s'.locks := fun heq => heq ▸ .refl
  cases h with
  | quiet h => exact h.locks
  | micro h => exact hof (hrefs.wakes (.single h)).2.locks
  | named source p e r => exact hof (hrefs.revive_frame e r).locks
  | unpause e cancel =>
    refine hof ?_
    rcases hp : s.isokendpt e with _ | p
    · unfold State.unpause
      rw [hp]
    · exact (hrefs.unpause_spec hp cancel).rest.1
  | restartOne driver p => exact hof (s.restartOne_restarted driver p).locks
  | restartOpen major p => exact hof (s.restartOpen_restarted major p).locks
  | fork parent child pid =>
    unfold pmFork
    repeat' split
    all_goals exact .refl
  | transfer p n v ino rw pos k buf c =>
    obtain ⟨pfs, log, m, heq⟩ := s.transfer_eq p v ino rw pos k buf c
    rw [heq]
    exact .refl
  | _ => exact .refl

theorem State.Steps.locks {C : Cause → Prop} (h : Steps C s s') (hrefs : s.Refs) : ReflTransGen LockStep s.locks s'.locks :=
  h.invariant (I := fun t => ReflTransGen LockStep s.locks t.locks) (fun _ _ hr hI hop => hI.trans (hop.locks hr)) hrefs .refl

theorem LockRun.reachable (h : LockRun s) : s.Refs ∧ s.locks.Reachable := by
  have hstep : ∀ {s s' : State} {C : Cause → Prop}, Steps C s s' → s.Refs ∧ s.locks.Reachable → s'.Refs ∧ s'.locks.Reachable :=
    fun hsteps hs => ⟨hsteps.refs hs.1, hs.2.trans (hsteps.locks hs.1)⟩
  induction h with
  | start hinit hlocks => exact ⟨hinit.refs, hlocks ▸ .refl⟩
  | iterate _ hit ih => exact hstep (ih.1.iterates_steps hit) ih
  | take _ hlive hrev ih => exact hstep (ih.1.take_steps (C := fun _ => True) hlive hrev) ih
  | retryPipe _ hlive hrev hpipe hend c ih =>
    exact hstep (ih.1.takePipe_steps (C := fun _ => True) hlive hrev hpipe hend c) ih

/-- What touches the locks.  A process that has been revived makes its request again; a descriptor
is also closed by `dup2`. -/
inductive LockCall where
  | request (p : ProcNr) (e : Endpoint) (fd : Int) (cmd : LockCmd) (k : Flock)
  | close (p : ProcNr) (fd : Int) (truncated : Bool)
  | exit (p : ProcNr) (e : Endpoint) (cancel : Option Int) (truncated : Fd → Bool)

namespace LockCall

def run (s : State) : LockCall → State
  | request p e fd cmd k => (s.doCall p e (.lock fd cmd k)).2
  | close p fd truncated => (s.closeFd p fd truncated).2
  | exit p e cancel truncated => s.freeProc p e cancel truncated

/-- The process can make the call. -/
def Made (s : State) : LockCall → Prop
  | request p .. | close p .. => s.Idle p
  | exit p e .. => s.isokendpt e = some p

/-- The condition: nobody up to INIT waits for a lock, and an F_UNLCK does not run out of locks
after it has changed some. -/
def Meets (s : State) (call : LockCall) : Prop :=
  s.Heard ∧ ∀ p e fd cmd k, call = request p e fd cmd k → ∀ fd' n, s.getFilp p fd = .ok (fd', n) →
    UnlockFits s.locks (s.lockRequest p n cmd k)

/-- After a lock has been removed or shortened, everybody who waits has been told to try again. -/
def Tells (s : State) (call : LockCall) : Prop :=
  s.locks.Loses (call.run s).locks → ∀ q, ¬ ((call.run s).proc q).Asleep

end LockCall

/-- Locks in all runs. -/
theorem locks_exclusive (h : LockRun s) :
    (∀ i j l l', s.locks.slot i = some l → s.locks.slot j = some l' → l.Apart l') ∧
      (∀ i l, s.locks.slot i = some l → l.first ≤ l.last) ∧ s.locks.count = s.locks.used.card ∧
      (∀ rq : LockRequest, rq.cmd = .getlk → (lockOp s.locks rq).1 = .ok → Reports s.locks rq) ∧
      ∀ call : LockCall, call.Made s → call.Meets s → call.Tells s := by
  obtain ⟨hrefs, hreach⟩ := h.reachable
  refine ⟨fun i j l l' hl hl' => hreach.apart hl hl', hreach.wf.nonempty, hreach.wf.count,
    fun rq hget hok => reports_of_ok hget hok, fun call hmade hmeets hloses => ?_⟩
  have htold : s.Told (call.run s) → ∀ q, ¬ ((call.run s).proc q).Asleep := fun ht =>
    ht.locks.resolve_left fun heq => s.locks.not_loses_self (heq ▸ hloses)
  cases call with
  | request p e fd cmd k =>
    unfold LockCall.run doCall at hloses ⊢
    rcases hget : s.getFilp p fd with r | ⟨fd', n⟩ <;> simp only [hget] at hloses ⊢
    · exact absurd hloses s.locks.not_loses_self
    · exact hrefs.doLock_told hreach.wf hmeets.1 (hmeets.2 p e fd cmd k rfl fd' n hget) hloses
  | close p fd truncated => exact htold (hrefs.closeFd_told hmade.exits hmeets.1 fd truncated)
  | exit p e cancel truncated => exact htold (hrefs.freeProc_told hmade hmeets.1)

/-- Calls of processes, one after the other. -/
def callsFrom (s : State) (calls : List (ProcNr × Call)) : State :=
  calls.foldl (fun s c => s.iterate (.message (.call c.1 c.2))) s

/-- All the calls are received. -/
def received (s : State) : List (ProcNr × Call) → Bool
  | [] => true
  | (p, c) :: rest =>
      s.panics.isEmpty && decide (s.reviving = 0) && s.live p && !s.blocked p && received (s.iterate (.message (.call p c))) rest

theorem LockRun.calls (h : LockRun s) {calls : List (ProcNr × Call)} (hrec : received s calls = true) :
    LockRun (callsFrom s calls) := by
  induction calls generalizing s with
  | nil => exact h
  | cons c rest ih =>
    simp only [received, Bool.and_eq_true, decide_eq_true_eq, List.isEmpty_iff, Bool.not_eq_true'] at hrec
    obtain ⟨⟨⟨⟨hpanics, hrev⟩, hlive⟩, hblocked⟩, hrest⟩ := hrec
    exact ih (h.iterate (.message s (.call c.1 c.2) hpanics hrev ⟨hlive, hblocked⟩)) hrest

/-- A process opens a file of 100 bytes. -/
def Call.openPlain : Call :=
  .openFile false ⟨true, true, false, false, false, false⟩ (.node ⟨0, 7, .regular, 100, none⟩ false) ⟨0, 0, none, none, false⟩

/-- Process A locks the bytes 4 and 5 for writing, and some times the bytes 0 to 9 for reading;
another process waits to read byte 4. -/
def lockCalls (q : ProcNr) (times : Nat) : List (ProcNr × Call) :=
  [(bootA, .openPlain), (q, .openPlain), (bootA, .lock 0 .setlk ⟨true, .lock .wr, .set, 4#32, 2#32⟩)] ++
    List.replicate times (bootA, .lock 0 .setlk ⟨true, .lock .rd, .set, 0#32, 10#32⟩) ++
    [(q, .lock 0 .setlkw ⟨true, .lock .rd, .set, 4#32, 1#32⟩)]

def bootLocks (q : ProcNr) (times : Nat) : State := callsFrom boot (lockCalls q times)

/-- Process A unlocks byte 4. -/
def unlockByte : LockCall := .request bootA ⟨11, 0⟩ 0 .setlk ⟨true, .unlock, .set, 4#32, 1#32⟩

theorem lockRun_bootLocks {q : ProcNr} {times : Nat} (hrec : received boot (lockCalls q times) = true) :
    LockRun (bootLocks q times) :=
  LockRun.calls (.start boot_initial rfl) hrec

/-- Process A unlocks a byte of its lock, and process B is told. -/
theorem locks_exclusive_unlock : LockRun (bootLocks bootB 0) ∧ unlockByte.Made (bootLocks bootB 0) ∧
    unlockByte.Meets (bootLocks bootB 0) ∧ (bootLocks bootB 0).locks.Loses (unlockByte.run (bootLocks bootB 0)).locks ∧
    ((bootLocks bootB 0).proc bootB).Asleep ∧ ¬ ((unlockByte.run (bootLocks bootB 0)).proc bootB).Asleep := by
  have hrun : LockRun (bootLocks bootB 0) := lockRun_bootLocks (by decide +kernel)
  have hmade : unlockByte.Made (bootLocks bootB 0) := ⟨by decide +kernel, by decide +kernel⟩
  have hheard : ∀ q, ((bootLocks bootB 0).proc q).blockedOn = .lock → initProcNr < q.val := by decide +kernel
  have hget : (bootLocks bootB 0).getFilp bootA 0 = .ok (⟨0, by decide⟩, ⟨0, by decide⟩) := by decide +kernel
  have hmeets : unlockByte.Meets (bootLocks bootB 0) := by
    refine ⟨fun q hq => hheard q hq.2.1, fun p e fd cmd k hcall fd' n hn => ?_⟩
    obtain ⟨rfl, rfl, rfl, rfl, rfl⟩ := LockCall.request.inj hcall
    obtain ⟨rfl, rfl⟩ := Prod.mk.inj (Except.ok.inj (hget.symm.trans hn))
    exact fun _ hlock => absurd hlock (by decide +kernel)
  have hloses : (bootLocks bootB 0).locks.Loses (unlockByte.run (bootLocks bootB 0)).locks :=
    ⟨⟨0, by decide⟩, ⟨.wr, 11, 0, 4, 5⟩, by decide +kernel, by decide +kernel⟩
  exact ⟨hrun, hmade, hmeets, hloses, ⟨by decide +kernel, by decide +kernel, by decide +kernel⟩,
    (locks_exclusive hrun).2.2.2.2 unlockByte hmade hmeets hloses bootB⟩

/-- The F_UNLCK takes bytes off the lock that `q` waits for, and `q` waits on. -/
def Unheard (q : ProcNr) (times : Nat) : Prop :=
  LockRun (bootLocks q times) ∧ unlockByte.Made (bootLocks q times) ∧
    (bootLocks q times).locks.Loses (unlockByte.run (bootLocks q times)).locks ∧
    ((unlockByte.run (bootLocks q times)).proc q).Asleep

/-- An F_UNLCK shortens the lock that process B waits for, runs out of locks at the third one in
its range, and fails; B waits on.  Nor is a server told whose lock has become free. -/
theorem unlock_unheard : Unheard bootB 6 ∧ Unheard ⟨5, by decide⟩ 0 := by
  constructor
  all_goals
    exact ⟨lockRun_bootLocks (by decide +kernel), ⟨by decide +kernel, by decide +kernel⟩,
      ⟨⟨0, by decide⟩, ⟨.wr, 11, 0, 4, 5⟩, by decide +kernel, by decide +kernel⟩, by decide +kernel, by decide +kernel, by decide +kernel⟩

end Minix.Vfs
