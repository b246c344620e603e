/-
  Vfs/Suspension.lean --- the counts of suspended processes.

  `susp_count` and `reviving` are kept beside the table of processes.  They are right as long
  as nobody answers for a process that waits for something else (`Orderly`).
-/
import Minix.Vfs.Runs

set_option autoImplicit false

namespace Minix.Vfs

open Foundation Function

variable {f g : Fproc} {e : Endpoint} {p q : ProcNr} {i : SelNr} {D : Endpoint → Prop} {s : State}

/-- A process that `susp_count` counts. -/
def Fproc.Suspended (f : Fproc) : Prop := f.pid ≠ 0 ∧ (f.blockedOn = .pipe ∨ f.blockedOn = .popen) ∧ f.revived = false

instance : DecidablePred Fproc.Suspended := fun _ => inferInstanceAs (Decidable (_ ∧ _))

/-- A process that `reviving` counts. -/
def Fproc.Marked (f : Fproc) : Prop := f.pid ≠ 0 ∧ f.revived = true

instance : DecidablePred Fproc.Marked := fun _ => inferInstanceAs (Decidable (_ ∧ _))

/-- The slots agree in how the process waits. -/
structure Fproc.Alike (f g : Fproc) : Prop where
  slot : g.pid = f.pid ∧ g.endpoint = f.endpoint
  blockedOn : g.blockedOn = f.blockedOn
  revived : g.revived = f.revived
  suspReopen : g.blockedOn = .popen → g.suspReopen = f.suspReopen

theorem Fproc.Alike.refl {f : Fproc} : f.Alike f := ⟨⟨rfl, rfl⟩, rfl, rfl, fun _ => rfl⟩

theorem Fproc.Alike.suspended (h : f.Alike g) : g.Suspended ↔ f.Suspended := by
  unfold Suspended
  rw [h.slot.1, h.blockedOn, h.revived]

theorem Fproc.Alike.marked (h : f.Alike g) : g.Marked ↔ f.Marked := by
  unfold Marked
  rw [h.slot.1, h.revived]

/-- What can be said of a slot on its own. -/
structure Fproc.Fair (f : Fproc) : Prop where
  revived : f.pid ≠ 0 → f.revived = true → f.blockedOn = .pipe ∨ f.blockedOn = .lock
  endpoint : f.pid ≠ 0 → f.endpoint.isSome = true
  suspReopen : f.pid ≠ 0 → f.blockedOn = .popen → f.suspReopen = false

theorem Fproc.Alike.fair (h : f.Alike g) (hf : f.Fair) : g.Fair := by
  refine ⟨?_, ?_, ?_⟩
  · rw [h.slot.1, h.revived, h.blockedOn]
    exact hf.revived
  · rw [h.slot.1, h.slot.2]
    exact hf.endpoint
  · intro hpid hb
    rw [h.suspReopen hb]
    exact hf.suspReopen (h.slot.1 ▸ hpid) (h.blockedOn ▸ hb)

/-- A process that does not wait for a pipe or for a lock is not being revived. -/
theorem Fproc.Fair.not_revived (h : f.Fair) (hpid : f.pid ≠ 0) (hb : f.blockedOn ≠ .pipe ∧ f.blockedOn ≠ .lock) :
    f.revived = false := by
  by_contra hrev
  rcases h.revived hpid (by simpa using hrev) with hpipe | hlock
  · exact hb.1 hpipe
  · exact hb.2 hlock

/-- A slot of which no process is being revived. -/
theorem Fproc.Fair.of_unrevived (hrev : f.revived = false) (hend : f.pid ≠ 0 → f.endpoint.isSome = true)
    (hflag : f.pid ≠ 0 → f.blockedOn = .popen → f.suspReopen = false) : f.Fair :=
  ⟨fun _ hset => absurd (hrev.symm.trans hset) (by simp), hend, hflag⟩

/-- Neither count counts the process. -/
def Fproc.Uncounted (f : Fproc) : Prop := ¬ f.Suspended ∧ ¬ f.Marked

theorem Fproc.Uncounted.of_unrevived (hb : f.blockedOn ≠ .pipe ∧ f.blockedOn ≠ .popen) (hrev : f.revived = false) : f.Uncounted := by
  refine ⟨fun h => ?_, fun h => nomatch hrev.symm.trans h.2⟩
  rcases h.2.1 with hpipe | hopen
  · exact hb.1 hpipe
  · exact hb.2 hopen

namespace State

variable {s s' : State} {p : ProcNr}

/-- How many processes wait for a pipe and are not being revived. -/
def suspended (s : State) : Nat := tallyOf Fproc.Suspended s.proc

/-- How many processes are being revived. -/
def marked (s : State) : Nat := tallyOf Fproc.Marked s.proc

/-- The counts are right, and a slot of select that is taken is for a process that waits
in select. -/
structure Balanced (s : State) : Prop where
  suspended : s.suspCount = s.suspended
  marked : s.reviving = s.marked
  fair : ∀ p, (s.proc p).Fair
  sel : ∀ i p, (s.sel i).requestor = some p → (s.proc p).endpoint = some (s.sel i).endpt ∧ (s.proc p).blockedOn = .select
  one : ∀ i j p, (s.sel i).requestor = some p → (s.sel j).requestor = some p → i = j
  panics : Panic.suspNegative ∉ s.panics ∧ Panic.noneRevived ∉ s.panics

theorem Initial.balanced (h : s.Initial) : s.Balanced where
  suspended := by
    have hzero : s.suspended = 0 := tally_eq_zero.mpr fun p => if_neg fun hp => by
      rcases hp.2.1 with hb | hb
      · exact nomatch (h.idle p).1.symm.trans hb
      · exact nomatch (h.idle p).1.symm.trans hb
    rw [hzero]
    exact h.counters.1
  marked := by
    have hzero : s.marked = 0 := tally_eq_zero.mpr fun p => if_neg fun hp =>
      absurd ((h.idle p).2.1.symm.trans hp.2) (by simp)
    rw [hzero]
    exact h.counters.2
  fair p := by
    refine ⟨fun _ hrev => ?_, fun hpid => ?_, fun _ hb => ?_⟩
    · exact nomatch (h.idle p).2.1.symm.trans hrev
    · rw [h.pid]
      simpa [live] using hpid
    · exact nomatch (h.idle p).1.symm.trans hb
  sel i p hi := nomatch (h.sel i).symm.trans hi
  one i j p hi := nomatch (h.sel i).symm.trans hi
  panics := by
    rw [h.panics]
    simp

theorem Refs.pid_ne (h : s.Refs) (hend : (s.proc p).endpoint = some e) : (s.proc p).pid ≠ 0 := by
  simpa [live] using h.live_of_endpoint hend

/-- The panics on the counts are not among these. -/
abbrev CountsKept (l : List Panic) : Prop := Panic.suspNegative ∉ l ∧ Panic.noneRevived ∉ l

section

variable (h : s.Balanced)
include h

/-- A process that waits for neither pipe, lock nor select is in no count. -/
theorem Balanced.uncounted (hpid : (s.proc p).pid ≠ 0)
    (hb : (s.proc p).blockedOn = .none ∨ (s.proc p).blockedOn = .dopen ∨ (s.proc p).blockedOn = .other) :
    (s.proc p).Uncounted ∧ (s.proc p).blockedOn ≠ .select ∧ (s.proc p).revived = false := by
  have hrev := (h.fair p).not_revived hpid (by rcases hb with hb | hb | hb <;> simp [hb])
  refine ⟨.of_unrevived ?_ hrev, ?_, hrev⟩
  all_goals rcases hb with hb | hb | hb <;> simp [hb]

/-- Nobody waits in another way than before. -/
theorem Balanced.same (hproc : ∀ p, (s.proc p).Alike (s'.proc p)) (hcounters : s'.suspCount = s.suspCount ∧ s'.reviving = s.reviving)
    (hsel : ∀ i, ((s'.sel i).requestor = (s.sel i).requestor ∧ (s'.sel i).endpt = (s.sel i).endpt) ∨ (s'.sel i).requestor = none)
    (hpanics : CountsKept s'.panics) : s'.Balanced where
  suspended := by
    have hsame : s'.suspended = s.suspended := tally_congr fun p => by simp only [(hproc p).suspended]
    rw [hcounters.1, hsame]
    exact h.suspended
  marked := by
    have hsame : s'.marked = s.marked := tally_congr fun p => by simp only [(hproc p).marked]
    rw [hcounters.2, hsame]
    exact h.marked
  fair p := (hproc p).fair (h.fair p)
  sel i p hi := by
    rcases hsel i with ⟨hreq, hend⟩ | hnone
    · rw [(hproc p).slot.2, (hproc p).blockedOn, hend]
      exact h.sel i p (hreq ▸ hi)
    · exact nomatch hnone.symm.trans hi
  one i j p hi hj := by
    rcases hsel i with ⟨hreq, -⟩ | hnone
    · rcases hsel j with ⟨hreq', -⟩ | hnone
      · exact h.one i j p (hreq ▸ hi) (hreq' ▸ hj)
      · exact nomatch hnone.symm.trans hj
    · exact nomatch hnone.symm.trans hi
  panics := hpanics

section

variable (hproc : s'.proc = update s.proc p f)
include hproc

section

variable (hsel : ∀ i q, (s'.sel i).requestor = some q → (q ≠ p ∧ (s.sel i).requestor = some q ∧ (s'.sel i).endpt = (s.sel i).endpt) ∨
      (q = p ∧ f.endpoint = some (s'.sel i).endpt ∧ f.blockedOn = .select))
    (hone : ∀ i j, (s'.sel i).requestor = some p → (s'.sel j).requestor = some p → i = j)
include hsel hone

/-- One process starts or ends to wait, and the counts go with it. -/
theorem Balanced.change
    (hcount : s'.suspCount + (if (s.proc p).Suspended then 1 else 0) = s.suspCount + if f.Suspended then 1 else 0)
    (hrev : s'.reviving + (if (s.proc p).Marked then 1 else 0) = s.reviving + if f.Marked then 1 else 0) (hfair : f.Fair)
    (hpanics : CountsKept s'.panics) : s'.Balanced := by
  refine ⟨?_, ?_, ?_, fun i q hi => ?_, fun i j q hi hj => ?_, hpanics⟩
  · unfold State.suspended
    rw [hproc]
    exact tallyOf_update h.suspended hcount
  · unfold State.marked
    rw [hproc]
    exact tallyOf_update h.marked hrev
  · rw [hproc]
    exact (forall_update_iff s.proc fun _ f => f.Fair).2 ⟨hfair, fun q _ => h.fair q⟩
  · rcases hsel i q hi with ⟨hq, hreq, hend⟩ | ⟨rfl, hend, hb⟩
    · rw [hproc, update_of_ne hq, hend]
      exact h.sel i q hreq
    · rw [hproc, update_self]
      exact ⟨hend, hb⟩
  · by_cases hq : q = p
    · subst hq
      exact hone i j hi hj
    · have hi' := (hsel i q hi).resolve_right fun hbad => hq hbad.1
      have hj' := (hsel j q hj).resolve_right fun hbad => hq hbad.1
      exact h.one i j q hi'.2.1 hj'.2.1

/-- The process is in neither count, before and after. -/
theorem Balanced.changeUncounted (hold : (s.proc p).Uncounted) (hnew : f.Uncounted)
    (hcounters : s'.suspCount = s.suspCount ∧ s'.reviving = s.reviving) (hfair : f.Fair)
    (hpanics : CountsKept s'.panics) : s'.Balanced := by
  refine h.change hproc hsel hone ?_ ?_ hfair hpanics
  · rw [if_neg hold.1, if_neg hnew.1, hcounters.1]
  · rw [if_neg hold.2, if_neg hnew.2, hcounters.2]

end

/-- The slots of select are not touched, and the process does not wait in select. -/
theorem Balanced.changed
    (hcount : s'.suspCount + (if (s.proc p).Suspended then 1 else 0) = s.suspCount + if f.Suspended then 1 else 0)
    (hrev : s'.reviving + (if (s.proc p).Marked then 1 else 0) = s.reviving + if f.Marked then 1 else 0) (hfair : f.Fair)
    (hold : (s.proc p).blockedOn ≠ .select) (hsel : s'.sel = s.sel) (hpanics : CountsKept s'.panics) : s'.Balanced := by
  have hne : ∀ i, (s.sel i).requestor ≠ some p := fun i hi => hold (h.sel i p hi).2
  refine h.change hproc (fun i q hi => .inl ?_) (fun i _ hi => ?_) hcount hrev hfair hpanics
  · rw [hsel] at hi ⊢
    refine ⟨?_, hi, rfl⟩
    rintro rfl
    exact hne i hi
  · rw [hsel] at hi
    exact absurd hi (hne i)

/-- A process goes on, and is not in the counts any more. -/
theorem Balanced.interrupted (hpid : (s.proc p).pid ≠ 0) (hb : (s.proc p).blockedOn ≠ .select)
    (hf : f.endpoint = (s.proc p).endpoint ∧ f.blockedOn = .none ∧ f.revived = false)
    (hcount : s'.suspCount + (if (s.proc p).Suspended then 1 else 0) = s.suspCount)
    (hrev : s'.reviving + (if (s.proc p).Marked then 1 else 0) = s.reviving) (hsel : s'.sel = s.sel)
    (hpanics : CountsKept s'.panics) : s'.Balanced := by
  obtain ⟨hfend, hfb, hfrev⟩ := hf
  have hnew : f.Uncounted := .of_unrevived (by simp [hfb]) hfrev
  refine h.changed hproc ?_ ?_ (.of_unrevived hfrev (fun _ => ?_) fun _ hbad => ?_) hb hsel hpanics
  · rw [if_neg hnew.1, hcount]
    omega
  · rw [if_neg hnew.2, hrev]
    omega
  · rw [hfend]
    exact (h.fair p).endpoint hpid
  · exact nomatch hfb.symm.trans hbad

/-- A process that neither count counts goes on. -/
theorem Balanced.goesOn
    (hf : f.endpoint = (s.proc p).endpoint ∧ f.blockedOn = .none ∧ f.revived = (s.proc p).revived) (hpid : (s.proc p).pid ≠ 0)
    (hold : (s.proc p).blockedOn = .none ∨ (s.proc p).blockedOn = .dopen ∨ (s.proc p).blockedOn = .other)
    (hcounters : s'.suspCount = s.suspCount ∧ s'.reviving = s.reviving) (hsel : s'.sel = s.sel)
    (hpanics : CountsKept s'.panics) : s'.Balanced := by
  obtain ⟨hfend, hfb, hfrev⟩ := hf
  have hold' := h.uncounted hpid hold
  refine h.interrupted hproc hpid hold'.2.1 ⟨hfend, hfb, hfrev.trans hold'.2.2⟩ ?_ ?_ hsel hpanics
  · rw [if_neg hold'.1.1, hcounters.1]
    omega
  · rw [if_neg hold'.1.2, hcounters.2]
    omega

end

/-- A process is marked, and not suspended any more. -/
theorem Balanced.marks (hproc : s'.proc = update s.proc p { s.proc p with revived := true })
    (hpid : (s.proc p).pid ≠ 0) (hb : (s.proc p).blockedOn = .pipe ∨ (s.proc p).blockedOn = .lock) (hrev : (s.proc p).revived = false)
    (hcount : s'.suspCount + (if (s.proc p).Suspended then 1 else 0) = s.suspCount) (hmarks : s'.reviving = s.reviving + 1)
    (hsel : s'.sel = s.sel) (hpanics : s'.panics = s.panics) : s'.Balanced := by
  have hmark : ¬ (s.proc p).Marked := by simp [Fproc.Marked, hrev]
  have hfsusp : ¬ Fproc.Suspended { s.proc p with revived := true } := by simp [Fproc.Suspended]
  have hfmark : Fproc.Marked { s.proc p with revived := true } := ⟨hpid, rfl⟩
  refine h.changed hproc ?_ ?_ ⟨fun _ _ => hb, (h.fair p).endpoint, (h.fair p).suspReopen⟩ ?_ hsel ?_
  · rw [if_neg hfsusp, hcount]
    omega
  · rw [if_neg hmark, if_pos hfmark, hmarks]
    omega
  · rcases hb with hb | hb <;> simp [hb]
  · rw [hpanics]
    exact h.panics

end

/-! ## Revival -/

/-- What `revive` does to a process that is not being revived. -/
theorem Refs.revive_eq (h : s.Refs) (hend : (s.proc p).endpoint = some e) (hrev : (s.proc p).revived = false) (r : Int) :
    s.revive e r =
      match (s.proc p).blockedOn with
      | .none => s
      | .pipe | .lock => s.mark p
      | .dopen => if r < 0 then ((s.goOn p).dropOpen p).reply e r else (s.goOn p).reply e (s.proc p).saved.fd
      | .popen => (s.goOn p).reply e (s.proc p).saved.fd
      | .select => (s.goOn p).reply e r
      | .other => ((s.endIo p r).goOn p).reply e r := by
  unfold State.revive
  rw [h.isokendpt_iff.mpr hend]
  cases hb : (s.proc p).blockedOn <;> simp only [hb, hrev, Bool.false_eq_true, if_false]

theorem goOn_other {s : State} (hq : q ≠ p) : (s.goOn p).proc q = s.proc q := setProc_proc_of_ne s _ hq

/-- A process that waits for a lock or for a driver is revived. -/
theorem Balanced.revive (h : s.Balanced) (hrefs : s.Refs) (hend : (s.proc p).endpoint = some e)
    (hb : (s.proc p).blockedOn = .lock ∨ (s.proc p).blockedOn = .dopen ∨ (s.proc p).blockedOn = .other)
    (hrev : (s.proc p).revived = false) (r : Int) : (s.revive e r).Balanced := by
  have hpid := hrefs.pid_ne hend
  rw [hrefs.revive_eq hend hrev]
  rcases hb with hb | hb | hb
  · rw [hb]
    have hsusp : ¬ (s.proc p).Suspended := by simp [Fproc.Suspended, hb]
    refine h.marks rfl hpid (.inr hb) hrev ?_ rfl rfl rfl
    rw [if_neg hsusp]
    exact add_zero _
  · rw [hb]
    simp only []
    split
    · obtain ⟨fds, inuse, filp, vnode, pfs, panics, heq, hpan⟩ := (s.goOn p).dropOpen_eq
      rw [heq, goOn, setProc_proc_self]
      refine h.goesOn (update_idem ..) ⟨rfl, rfl, rfl⟩ hpid (.inr (.inl hb)) ⟨rfl, rfl⟩ rfl ?_
      rcases hpan with hpan | hpan
      · rw [hpan]
        exact h.panics
      · rw [hpan]
        exact ⟨List.not_mem_cons_of_ne_of_not_mem (by simp) h.panics.1, List.not_mem_cons_of_ne_of_not_mem (by simp) h.panics.2⟩
    · exact h.goesOn rfl ⟨rfl, rfl, rfl⟩ hpid (.inr (.inl hb)) ⟨rfl, rfl⟩ rfl h.panics
  · rw [hb]
    rw [endIo_goOn]
    exact h.goesOn rfl ⟨rfl, rfl, rfl⟩ hpid (.inr (.inr hb)) ⟨rfl, rfl⟩ rfl h.panics

/-- A slot of select is given back. -/
theorem Balanced.unrequested (h : s.Balanced) (hi : (s.sel i).requestor = some p) {x : SelectEntry} (hx : x.requestor = none) :
    ∀ j q, ((s.setSel i x).sel j).requestor = some q →
      q ≠ p ∧ (s.sel j).requestor = some q ∧ ((s.setSel i x).sel j).endpt = (s.sel j).endpt := by
  refine setSel_rule (fun q hq => nomatch hx.symm.trans hq) fun j hji q hq => ⟨?_, hq, rfl⟩
  rintro rfl
  exact hji (h.one j i q hq hi)

/-- A process that waits in select is woken up. -/
theorem Balanced.wakeup (h : s.Balanced) (hrefs : s.Refs) (hi : (s.sel i).requestor = some p) {r : Int} :
    (s.selectWakeup i r).Balanced := by
  obtain ⟨hend, hb⟩ := h.sel i p hi
  have hrev : (s.proc p).revived = false := (h.fair p).not_revived (hrefs.pid_ne hend) (by simp [hb])
  have heq : s.revive (s.sel i).endpt r = (s.goOn p).reply (s.sel i).endpt r := by
    rw [hrefs.revive_eq hend hrev, hb]
  have hsel := h.unrequested hi (x := { s.sel i with requestor := none }) rfl
  unfold selectWakeup
  rw [heq]
  exact h.changeUncounted rfl (fun j q hj => .inl (hsel j q hj)) (fun j _ hj => absurd rfl (hsel j p hj).1)
    (.of_unrevived (by simp [hb]) hrev) (.of_unrevived (by simp) hrev) ⟨rfl, rfl⟩
    (.of_unrevived hrev (fun _ => by rw [hend]; rfl) fun _ hb => nomatch hb) h.panics

/-- What `release` takes waits for a pipe. -/
theorem Refs.released (h : s.Refs) {v : VnodeNr} {call : CallNr} (hrel : s.releases v call p = true) (hv : (s.vnode v).type = .fifo)
    (hcall : call ≠ .fcntl ∧ call ≠ .select) : (s.proc p).Suspended := by
  unfold releases at hrel
  simp only [Bool.and_eq_true, decide_eq_true_eq] at hrel
  obtain ⟨⟨⟨⟨hlive, hblocked⟩, hrev⟩, hsaved⟩, hvnode⟩ := hrel
  have hpid : (s.proc p).pid ≠ 0 := by simpa [live] using hlive
  refine ⟨hpid, ?_, by simpa using hrev⟩
  have hw := h.waits p hlive
  unfold Waits at hw
  rcases hb : (s.proc p).blockedOn with _ | _ | _ | _ | _ | _ | _
  all_goals simp only [hb, hvnode, hsaved] at hw
  · simp [blocked, hb] at hblocked
  · exact .inl rfl
  · exact absurd hw.1 hcall.1
  · exact .inr rfl
  · exact absurd hw.1 hcall.2
  · cases (hw v rfl).symm.trans hv
  · rcases hw v rfl with hw | hw
    · cases hw.symm.trans hv
    · cases hw.symm.trans hv

/-- A process that waits for a pipe is released. -/
theorem Balanced.release (h : s.Balanced) (hrefs : s.Refs) (hp : (s.proc p).Suspended) : (s.releaseOne p).Balanced := by
  obtain ⟨hpid, hb, hrev⟩ := hp
  obtain ⟨e, hend⟩ := Option.isSome_iff_exists.mp ((h.fair p).endpoint hpid)
  have hsusp : (s.proc p).Suspended := ⟨hpid, hb, hrev⟩
  have hmark : ¬ (s.proc p).Marked := by simp [Fproc.Marked, hrev]
  have hpos : 1 ≤ s.suspCount := by
    have hle := le_tally (fun f => if Fproc.Suspended f then 1 else 0) s.proc p
    rw [if_pos hsusp] at hle
    have := h.suspended
    have : 1 ≤ s.suspended := hle
    omega
  have hnot : ¬ s.suspCount - 1 < 0 := by omega
  have hcount : s.suspCount - 1 + (if (s.proc p).Suspended then 1 else 0) = s.suspCount := by
    rw [if_pos hsusp]
    omega
  unfold releaseOne
  simp only [hend]
  rw [hrefs.revive_eq hend hrev]
  rcases hb with hb | hb
  · rw [hb]
    rw [if_neg (show ¬ (s.mark p).suspCount - 1 < 0 from hnot)]
    exact h.marks rfl hpid (.inl hb) hrev hcount rfl rfl rfl
  · rw [hb]
    rw [if_neg (show ¬ ((s.goOn p).reply e _).suspCount - 1 < 0 from hnot)]
    refine h.interrupted rfl hpid (by simp [hb]) ⟨rfl, rfl, hrev⟩ hcount ?_ rfl h.panics
    rw [if_neg hmark]
    exact add_zero _

theorem Balanced.micro (h : s.Balanced) (hrefs : s.Refs) (hstep : Micro D s s') : s'.Balanced := by
  cases hstep with
  | sel i e hreq hend =>
    exact h.same (fun _ => .refl) ⟨rfl, rfl⟩ (setSel_rule (.inl ⟨hreq, hend⟩) fun _ _ => .inl ⟨rfl, rfl⟩) h.panics
  | filp n f hf => exact h.same (fun _ => .refl) ⟨rfl, rfl⟩ (fun _ => .inl ⟨rfl, rfl⟩) h.panics
  | wakeup i r hreq =>
    obtain ⟨p, hp⟩ := Option.isSome_iff_exists.mp hreq
    exact h.wakeup hrefs hp
  | release v call p hrel hv hcall => exact h.release hrefs (hrefs.released hrel hv hcall)
  | unlock p e hblocked hend =>
    rcases hrev : (s.proc p).revived with _ | _
    · exact h.revive hrefs hend (.inl hblocked) hrev 0
    · have hsettled : s.Settled e := fun q hq => by
        obtain rfl := hrefs.endpoint_inj hend (isokendpt_eq_some hq).2
        exact .inl hrev
      rw [hsettled.revive_eq]
      exact h
  | undriver p e r hblocked hend =>
    exact h.revive hrefs hend (.inr (.inr hblocked)) ((h.fair p).not_revived (hrefs.pid_ne hend) (by simp [hblocked])) r

/-! ## Processes that start and end to wait -/

/-- What is known of a process that makes a call. -/
theorem Balanced.idle (h : s.Balanced) (hp : s.Idle p) :
    (s.proc p).pid ≠ 0 ∧ (s.proc p).revived = false ∧ (s.proc p).Uncounted ∧ (s.proc p).blockedOn ≠ .select := by
  have hpid : (s.proc p).pid ≠ 0 := by simpa [live] using hp.1
  obtain ⟨hold, hselect, hrev⟩ := h.uncounted hpid (.inl hp.2)
  exact ⟨hpid, hrev, hold, hselect⟩

/-- A process starts to wait.  The count of suspended processes goes up for a pipe. -/
theorem Balanced.waits (h : s.Balanced) (hp : s.Idle p) (hproc : s'.proc = update s.proc p f)
    (hf : f.pid = (s.proc p).pid ∧ f.endpoint = (s.proc p).endpoint ∧ f.revived = (s.proc p).revived)
    (hflag : f.blockedOn = .popen → f.suspReopen = false)
    (hcount : s'.suspCount = s.suspCount + if f.blockedOn = .pipe ∨ f.blockedOn = .popen then 1 else 0)
    (hrev : s'.reviving = s.reviving) (hsel : s'.sel = s.sel) (hpanics : s'.panics = s.panics) : s'.Balanced := by
  obtain ⟨hpid, hprev, hold, hselect⟩ := h.idle hp
  obtain ⟨hfpid, hfend, hfrev⟩ := hf
  have hfsusp : f.Suspended ↔ (f.blockedOn = .pipe ∨ f.blockedOn = .popen) := by
    unfold Fproc.Suspended
    rw [hfpid, hfrev, hprev]
    simp [hpid]
  have hfmark : ¬ f.Marked := by simp [Fproc.Marked, hfrev, hprev]
  refine h.changed hproc ?_ ?_ (.of_unrevived (hfrev.trans hprev) (fun _ => ?_) fun _ => hflag) hselect hsel (hpanics ▸ h.panics)
  · rw [if_neg hold.1, hcount]
    simp only [hfsusp]
    omega
  · rw [if_neg hold.2, if_neg hfmark, hrev]
  · rw [hfend]
    exact (h.fair p).endpoint hpid

theorem suspend_other {s : State} {why : BlockedOn} {saved : SavedCall} (hq : q ≠ p) :
    (s.suspend p why saved).proc q = s.proc q := by
  unfold suspend
  rw [setProc_proc_of_ne _ _ hq]
  split <;> rfl

theorem Balanced.waitSelect (h : s.Balanced) (hp : s.Idle p) {e : SelectEntry} {saved : SavedCall}
    (hreq : e.requestor = some p) (hend : (s.proc p).endpoint = some e.endpt) : ((s.setSel i e).suspend p .select saved).Balanced := by
  obtain ⟨hpid, hrev, hold, hselect⟩ := h.idle hp
  have hne : ∀ j, (s.sel j).requestor ≠ some p := fun j hj => hselect (h.sel j p hj).2
  have hone : ∀ j, ((s.setSel i e).sel j).requestor = some p → j = i := setSel_rule (fun _ => rfl) fun j _ hj => absurd hj (hne j)
  refine h.changeUncounted (p := p) (f := { s.proc p with blockedOn := .select, saved := saved, suspReopen := false }) rfl ?_
    (fun j k hj hk => (hone j hj).trans (hone k hk).symm) hold (.of_unrevived (by simp) hrev) ⟨rfl, rfl⟩
    (.of_unrevived hrev (h.fair p).endpoint fun _ hbad => nomatch hbad) h.panics
  refine setSel_rule (fun q hq => .inr ⟨Option.some.inj (hq.symm.trans hreq), hend, rfl⟩) fun j _ q hq => .inl ⟨?_, hq, rfl⟩
  rintro rfl
  exact hne j hq

theorem Balanced.wakes (h : s.Balanced) (hrefs : s.Refs) (hrun : Wakes D s s') : s'.Balanced := by
  induction hrun with
  | refl => exact h
  | tail hrun hstep ih => exact ih.micro (hrefs.wakes hrun).1 hstep

/-- A select is interrupted, and its slot is given back. -/
theorem Balanced.forget (h : s.Balanced) (hrefs : s.Refs) (hend : (s.proc p).endpoint = some e)
    (hb : (s.proc p).blockedOn = .select) {r : Int} : ((s.selectForget e).interrupt p e r).Balanced := by
  -- The slot of the process, if there is one, is not taken any more.
  have hforget : ∃ t : State, t.Balanced ∧ t.proc = s.proc ∧ (s.selectForget e).proc = s.proc ∧
      (s.selectForget e).suspCount = t.suspCount ∧ (s.selectForget e).reviving = t.reviving ∧ (s.selectForget e).panics = t.panics ∧
      ∀ j q, ((s.selectForget e).sel j).requestor = some q → q ≠ p ∧ (t.sel j).requestor = some q ∧
        ((s.selectForget e).sel j).endpt = (t.sel j).endpt := by
    unfold selectForget
    rcases hfind : (List.finRange maxSelects).find? fun i => (s.sel i).requestor.isSome && decide ((s.sel i).endpt = e) with _ | i
    · refine ⟨s, h, rfl, rfl, rfl, rfl, rfl, fun j q hj => ⟨?_, hj, rfl⟩⟩
      rintro rfl
      have hnone := List.find?_eq_none.mp hfind j (List.mem_finRange j)
      have hendpt : (s.sel j).endpt = e := Option.some.inj ((h.sel j q hj).1.symm.trans hend)
      simp [hj, hendpt] at hnone
    · obtain ⟨hrun, howner, hproc⟩ := s.selectCancelAll_wakes (D := fun _ => False) i
      have hsome := List.find?_some hfind
      simp only [Bool.and_eq_true, decide_eq_true_eq] at hsome
      obtain ⟨q0, hq0⟩ := Option.isSome_iff_exists.mp hsome.1
      obtain rfl : q0 = p := hrefs.endpoint_inj hend (by rw [← hsome.2]; exact hrefs.slot q0 _ (h.sel i q0 hq0).1)
      have hbal := h.wakes hrefs hrun
      simp only []
      generalize s.selectCancelAll i = t at howner hproc hbal
      have hreq : (t.sel i).requestor = some q0 := (congrArg Prod.fst howner).trans hq0
      exact ⟨t, hbal, hproc, hproc, rfl, rfl, rfl, hbal.unrequested hreq rfl⟩
  obtain ⟨t, hbal, htproc, hproc, hcount, hrev, hpanics, hsel⟩ := hforget
  have hidle := (h.fair p).not_revived (hrefs.pid_ne hend) (by simp [hb])
  have hself : ((s.selectForget e).interrupt p e r).proc = update t.proc p { s.proc p with blockedOn := .none } := by
    show update (s.selectForget e).proc p { (s.selectForget e).proc p with blockedOn := .none } = _
    rw [hproc, htproc]
  exact hbal.changeUncounted hself (fun j q hj => .inl (hsel j q hj)) (fun j _ hj => absurd rfl (hsel j p hj).1)
    (.of_unrevived (by simp [htproc, hb]) (htproc ▸ hidle)) (.of_unrevived (by simp) hidle) ⟨hcount, hrev⟩
    (.of_unrevived hidle (h.fair p).endpoint fun _ hbad => nomatch hbad) (hpanics ▸ hbal.panics)

/-- What is left of a process that is interrupted. -/
theorem unpaused_interrupt (s : State) (hpid : (s.proc p).pid ≠ 0) {e : Endpoint} {status : Int} :
    let t := (s.unpaused p).interrupt p e status
    t.proc = update s.proc p { s.proc p with revived := false, blockedOn := .none } ∧ t.suspCount = s.suspCount ∧
      t.reviving + (if (s.proc p).Marked then 1 else 0) = s.reviving ∧ t.sel = s.sel ∧ t.panics = s.panics := by
  have hmarked : (s.proc p).Marked ↔ (s.proc p).revived = true := by simp [Fproc.Marked, hpid]
  unfold unpaused
  rcases hrev : (s.proc p).revived with _ | _
  · rw [if_neg (show ¬ (s.proc p).Marked from fun hm => by simp [hmarked.mp hm] at hrev)]
    refine ⟨?_, rfl, add_zero _, rfl, rfl⟩
    show update s.proc p { s.proc p with blockedOn := .none } = _
    rw [← hrev]
  · rw [if_pos (hmarked.mpr hrev)]
    refine ⟨?_, rfl, sub_add_cancel .., rfl, rfl⟩
    show update (s.unmark p).proc p { (s.unmark p).proc p with blockedOn := .none } = _
    rw [unmark_self]
    exact update_idem ..

section

variable (h : s.Balanced)
include h

theorem Balanced.unpause (hrefs : s.Refs) {e : Endpoint} {cancel : Option Int} : (s.unpause e cancel).Balanced := by
  rcases hp : s.isokendpt e with _ | p
  · unfold State.unpause
    rw [hp]
    exact h
  have hend := (isokendpt_eq_some hp).1
  have hpid := hrefs.pid_ne hend
  have hrun := unpause_unpauses hp cancel
  generalize s.unpause e cancel = t at hrun ⊢
  obtain ⟨hproc, hcount, hrev, hsel, hpanics⟩ := s.unpaused_interrupt hpid
  have hnot : (s.proc p).blockedOn ≠ .pipe ∧ (s.proc p).blockedOn ≠ .lock → s.unpaused p = s := by
    intro hb
    unfold unpaused
    rw [(h.fair p).not_revived hpid hb]
    rfl
  cases hrun with
  | same => exact h
  | waits hb =>
    rw [hnot (by rcases hb with hb | hb <;> simp [hb])]
    exact h
  | woken hb =>
    refine h.interrupted hproc hpid ?_ ⟨rfl, rfl, rfl⟩ ?_ hrev hsel (hpanics ▸ h.panics)
    · rcases hb with hb | ⟨hb | hb, -⟩ <;> simp [hb]
    · have hsusp : ¬ (s.proc p).Suspended := by rcases hb with hb | ⟨-, hb⟩ <;> simp [Fproc.Suspended, hb]
      rw [if_neg hsusp, hcount]
      exact add_zero _
  | counted hb hunmarked =>
    -- An interrupted call that waits for a pipe is taken from the count unless it is being revived.
    refine h.interrupted hproc hpid (by rcases hb with hb | hb <;> simp [hb]) ⟨rfl, rfl, rfl⟩ ?_ hrev hsel (hpanics ▸ h.panics)
    rw [if_pos ⟨hpid, hb, hunmarked⟩]
    exact (sub_add_cancel ..).trans hcount
  | select hb =>
    rw [hnot (by simp [hb])]
    exact h.forget hrefs hend hb
  | other hb reopen grant r =>
    rw [hnot (by simp [hb])]
    refine h.goesOn (f := { s.proc p with suspReopen := reopen, grant := grant, blockedOn := .none }) ?_ ⟨rfl, rfl, rfl⟩ hpid
      (.inr (.inr hb)) ⟨rfl, rfl⟩ rfl h.panics
    show update (s.setProc p _).proc p { (s.setProc p _).proc p with blockedOn := .none } = _
    rw [setProc_proc_self]
    exact update_idem ..

/-- A driver that has been started again lets a process go on that waits for a driver, or that does not wait. -/
theorem Balanced.restarted (hr : s.Restarted p s') (hlive : s.live p = true)
    (hb : (s.proc p).blockedOn = .none ∨ (s.proc p).blockedOn = .dopen ∨ (s.proc p).blockedOn = .other) : s'.Balanced := by
  have hpid : (s.proc p).pid ≠ 0 := by simpa [live] using hlive
  have hset : ∀ inuse flag,
      (s.setProc p { s.proc p with blockedOn := .none, inuse := inuse, suspReopen := flag }).Balanced := fun _ _ =>
    h.goesOn rfl ⟨rfl, rfl, rfl⟩ hpid hb ⟨rfl, rfl⟩ rfl h.panics
  cases hr with
  | same => exact h
  | went inuse flag => exact hset inuse flag
  | answered inuse flag hend r => exact (hset inuse flag).same (fun _ => .refl) ⟨rfl, rfl⟩ (fun _ => .inl ⟨rfl, rfl⟩) (hset inuse flag).panics

theorem Balanced.restartOpen (hrefs : s.Refs) {major : Major} (hlive : s.live p = true)
    (hwait : (s.proc p).blockedOn ≠ .dopen) (hflag : (s.proc p).suspReopen = true) (hpipe : (s.proc p).blockedOn ≠ .pipe) :
    (s.restartOpen major p).Balanced := by
  refine h.restarted (s.restartOpen_restarted major p) hlive ?_
  have hw := hrefs.waits p hlive
  unfold Waits at hw
  rcases hb : (s.proc p).blockedOn with _ | _ | _ | _ | _ | _ | _
  all_goals simp only [hb] at hw
  · exact .inl rfl
  · exact absurd hb hpipe
  · exact nomatch hw.2.symm.trans hflag
  · exact nomatch ((h.fair p).suspReopen (by simpa [live] using hlive) hb).symm.trans hflag
  · exact nomatch hw.2.symm.trans hflag
  · exact absurd hb hwait
  · exact .inr (.inr rfl)

/-- A process that makes a call is copied to a free slot. -/
theorem Balanced.fork (hrefs : s.Refs) {parent child : Endpoint} {pid : Nat}
    (hsend : (Message.pmFork parent child pid).Sendable s) : (s.pmFork parent child pid).Balanced := by
  obtain ⟨hpid, ⟨p, hp, hlive, hblocked⟩, hrange, hfree⟩ := hsend
  have hidle : (s.proc p).blockedOn = .none := by simpa [blocked] using hblocked
  obtain ⟨-, hrev, -⟩ := h.idle ⟨hlive, hidle⟩
  unfold pmFork
  rw [hp]
  simp only []
  rw [dif_pos hrange]
  have hc : ((⟨child.nr.toNat, by omega⟩ : ProcNr).val : Int) = child.nr := by
    simp only []
    omega
  generalize (⟨child.nr.toNat, by omega⟩ : ProcNr) = c at hc
  have hdead := hfree c hc
  have hcpid : (s.proc c).pid = 0 := by simpa [live] using hdead
  have hne : ∀ i, (s.sel i).requestor ≠ some c := by
    intro i hi
    have := hrefs.live_of_endpoint (h.sel i c hi).1
    rw [hdead] at this
    simp at this
  refine h.changeUncounted (p := c) (f := { s.proc p with pid := pid, endpoint := some child }) rfl
    (fun i q hi => .inl ⟨?_, hi, rfl⟩) (fun i _ hi => absurd hi (hne i))
    ⟨by simp [Fproc.Suspended, hcpid], by simp [Fproc.Marked, hcpid]⟩ (.of_unrevived (by simp [hidle]) hrev) ⟨rfl, rfl⟩
    (.of_unrevived hrev (fun _ => rfl) fun _ hb => by cases hidle.symm.trans hb) h.panics
  rintro rfl
  exact hne i hi

theorem Balanced.exit (hend : (s.proc p).endpoint = some e) (hrefs : s.Refs)
    (hidle : (s.proc p).blockedOn = .none ∨ (s.proc p).blockedOn = .dopen ∨ (s.proc p).blockedOn = .other) :
    (s.setProc p { s.proc p with endpoint := none, pid := 0 }).Balanced := by
  obtain ⟨hold, hselect, -⟩ := h.uncounted (hrefs.pid_ne hend) hidle
  have hfsusp : ¬ Fproc.Suspended { s.proc p with endpoint := none, pid := 0 } := by simp [Fproc.Suspended]
  have hfmark : ¬ Fproc.Marked { s.proc p with endpoint := none, pid := 0 } := by simp [Fproc.Marked]
  refine h.changed rfl ?_ ?_ ⟨fun hbad => absurd rfl hbad, fun hbad => absurd rfl hbad, fun hbad => absurd rfl hbad⟩ hselect rfl h.panics
  · rw [if_neg hold.1, if_neg hfsusp]
    rfl
  · rw [if_neg hold.2, if_neg hfmark]
    rfl

theorem Balanced.take (hlive : s.live p = true) (hrev : (s.proc p).revived = true) : (s.take p).Balanced := by
  have hpid : (s.proc p).pid ≠ 0 := by simpa [live] using hlive
  have hb := (h.fair p).revived hpid hrev
  have hsusp : ¬ (s.proc p).Suspended := by simp [Fproc.Suspended, hrev]
  have hproc : (s.take p).proc = update s.proc p { s.proc p with revived := false, blockedOn := .none } := by
    show update (s.unmark p).proc p { (s.unmark p).proc p with blockedOn := .none } = _
    rw [unmark_self]
    exact update_idem ..
  refine h.interrupted hproc hpid (by rcases hb with hb | hb <;> simp [hb]) ⟨rfl, rfl, rfl⟩ ?_ ?_ rfl h.panics
  · rw [if_neg hsusp]
    exact add_zero _
  · rw [if_pos ⟨hpid, hrev⟩]
    exact sub_add_cancel ..

end

/-! ## Steps -/

/-- A driver answers only for processes that do not wait for a pipe or in select, and no process that waits for a
pipe has the flag of a driver that is started again. -/
def Fit (C : Cause → Prop) : Prop :=
  (∀ source f, C (.named source f) → f.blockedOn ≠ .pipe ∧ f.blockedOn ≠ .popen ∧ f.blockedOn ≠ .select) ∧
    ∀ major why task, C (.restarted major why task) → why ≠ .pipe

theorem Balanced.op (h : s.Balanced) (hrefs : s.Refs) {C : Cause → Prop} (hC : Fit C) (hop : Op C s s') : s'.Balanced := by
  have hquiet : ∀ t : State, (∀ p, (s.proc p).Alike (t.proc p)) → t.sel = s.sel → t.suspCount = s.suspCount ∧ t.reviving = s.reviving →
      t.panics = s.panics → t.Balanced := fun t hproc hsel hcounters hpanics =>
    h.same hproc hcounters (fun i => .inl (by rw [hsel]; exact ⟨rfl, rfl⟩)) (by rw [hpanics]; exact h.panics)
  cases hop with
  | micro hstep => exact h.micro hrefs hstep
  | quiet hq =>
    refine hquiet _ (fun p => ?_) hq.sel hq.counters hq.panics
    obtain ⟨fds, inuse, hp⟩ := hq.proc p
    rw [hp]
    exact ⟨⟨rfl, rfl⟩, rfl, rfl, fun _ => rfl⟩
  | reply p e r => exact hquiet _ (fun _ => .refl) rfl ⟨rfl, rfl⟩ rfl
  | writeCall p n => exact hquiet _ (fun _ => .refl) rfl ⟨rfl, rfl⟩ rfl
  | panic why hwhy =>
    refine h.same (fun _ => .refl) ⟨rfl, rfl⟩ (fun i => .inl ⟨rfl, rfl⟩) ?_
    have hne : why ≠ .suspNegative ∧ why ≠ .noneRevived := by
      refine ⟨?_, ?_⟩
      · rintro rfl
        exact hwhy
      rintro rfl
      -- Somebody is being revived as long as the count says so.
      obtain ⟨hrev, hall⟩ := hwhy
      refine hrev ?_
      have hzero : s.marked = 0 := tally_eq_zero.mpr fun p => if_neg fun hm => by
        have := hall p (by simpa [live] using hm.1)
        cases this.symm.trans hm.2
      rw [h.marked, hzero]
      rfl
    show Panic.suspNegative ∉ why :: s.panics ∧ Panic.noneRevived ∉ why :: s.panics
    simp only [List.mem_cons, not_or]
    exact ⟨⟨hne.1.symm, h.panics.1⟩, hne.2.symm, h.panics.2⟩
  | wait p f hidle hwhy hf =>
    refine h.waits (f := f) hidle rfl ?_ (fun hb => ?_) ?_ rfl rfl rfl
    · rw [hf]
      exact ⟨rfl, rfl, rfl⟩
    · rw [hb] at hwhy
      simp at hwhy
    · have hnot : ¬ (f.blockedOn = .pipe ∨ f.blockedOn = .popen) := by rcases hwhy with hb | hb | hb <;> simp [hb]
      rw [if_neg hnot]
      show s.suspCount = s.suspCount + 0
      omega
  | waitOpen p saved hidle =>
    exact h.waits (f := { s.proc p with blockedOn := .popen, saved := saved, suspReopen := false }) hidle rfl ⟨rfl, rfl, rfl⟩
      (fun _ => rfl) rfl rfl rfl rfl
  | waitPipe p rw fd buf size hidle =>
    exact h.waits hidle (f := { s.proc p with blockedOn := .pipe, saved := ⟨fd, rw.call, buf, size⟩ }) rfl ⟨rfl, rfl, rfl⟩
      (fun hb => by cases hb) rfl rfl rfl rfl
  | slot i e hfree hreq =>
    exact h.same (fun _ => .refl) ⟨rfl, rfl⟩ (setSel_rule (.inr hreq) fun _ _ => .inl ⟨rfl, rfl⟩) h.panics
  | waitSelect p i e saved hidle hfree hreq hend => exact h.waitSelect hidle hreq hend
  | named source p e r hend hblocked hrev hcause =>
    obtain ⟨h1, h2, h3⟩ := hC.1 _ _ hcause
    refine h.revive hrefs hend ?_ hrev r
    rcases hb : (s.proc p).blockedOn with _ | _ | _ | _ | _ | _ | _
    all_goals simp [hb] at hblocked h1 h2 h3 ⊢
  | unpause e cancel => exact h.unpause hrefs
  | restartOne driver p hwait => exact h.restarted (s.restartOne_restarted driver p) hwait.1 (.inr (.inr hwait.2.1))
  | restartOpen major p hlive hwait hflag hcause => exact h.restartOpen hrefs hlive hwait hflag (hC.2 _ _ _ hcause)
  | flag P hP =>
    refine hquiet _ (fun p => ?_) rfl ⟨rfl, rfl⟩ rfl
    simp only []
    split_ifs with hp
    · exact ⟨⟨rfl, rfl⟩, rfl, rfl, fun hb => by cases (hP p hp).2.symm.trans hb⟩
    · exact .refl
  | fork parent child pid hsend => exact h.fork hrefs hsend
  | exit p e hend _ hidle => exact h.exit hend hrefs hidle
  | take p hlive hrev => exact h.take hlive hrev
  | transfer p n v ino rw pos k buf c =>
    obtain ⟨pfs, log, m, heq⟩ := s.transfer_eq p v ino rw pos k buf c
    rw [heq]
    exact hquiet _ (fun _ => .refl) rfl ⟨rfl, rfl⟩ rfl
  | partly p n hidle =>
    exact hquiet _ (setProc_rule ⟨⟨rfl, rfl⟩, rfl, rfl, fun _ => rfl⟩ fun _ _ => .refl) rfl ⟨rfl, rfl⟩ rfl

end State

/-- No driver answers for a process that waits for a pipe or in select, and no driver is started again while a process
that waits for a pipe has its flag. -/
def Orderly (s : State) (input : Input) : Prop := State.Fit (input.Causes s)

/-- The counts of suspended processes are exact in orderly runs. -/
theorem Reached.balanced (h : Reached Orderly s) : s.Balanced :=
  h.of_steps (fun _ hs => hs.balanced) fun _ _ hP _ _ hrefs hI hop => hI.op hrefs hP hop

/-- In orderly runs `susp_count` and `reviving` count what they are to count, a process that does not wait is not
being revived, and the panics on the counts are not reached. -/
theorem suspension_exact {s : State} (h : Reached Orderly s) :
    s.suspCount = s.suspended ∧ s.reviving = s.marked ∧
      (∀ p, s.live p = true → (s.proc p).blockedOn = .none → (s.proc p).revived = false) ∧
      Panic.suspNegative ∉ s.panics ∧ Panic.noneRevived ∉ s.panics := by
  have hbal := h.balanced
  refine ⟨hbal.suspended, hbal.marked, fun p hp hb => ?_, hbal.panics⟩
  exact (hbal.fair p).not_revived (by simpa [State.live] using hp) (by simp [hb])

/-- A process reads from its own pipe, and waits. -/
def bootRead : State := bootPipe.iterate (.message (.call bootA (.read 0 0 1 .plain)))

theorem reached_bootRead {P : State → Input → Prop} (hpipe : P boot (.message (.call bootA (.pipe (some 0)))))
    (hread : P bootPipe (.message (.call bootA (.read 0 0 1 .plain)))) : Reached P bootRead :=
  (reached_bootPipe hpipe).step hread (.message bootPipe _ (by decide +kernel) (by decide +kernel) ⟨by decide +kernel, by decide +kernel⟩)

theorem orderly_of_no_cause {input : Input} (h : ∀ c, ¬ input.Causes s c) : Orderly s input :=
  ⟨fun _ _ hc => absurd hc (h _), fun _ _ _ hc => absurd hc (h _)⟩

theorem suspension_exact_read : Reached Orderly bootRead ∧ bootRead.suspCount = 1 ∧ bootRead.suspCount = bootRead.suspended := by
  have hreached : Reached Orderly bootRead :=
    reached_bootRead (orderly_of_no_cause fun c hc => by cases hc) (orderly_of_no_cause fun c hc => by cases hc)
  exact ⟨hreached, by decide +kernel, (suspension_exact hreached).1⟩

/-- A message DEV_REVIVE of another process names one that waits for a pipe: it is being revived, and still counted as
suspended. -/
theorem devRevive_pipe_miscounts : ∃ s : State, Reached (fun _ _ => True) s ∧ s.suspCount = 1 ∧ s.suspended = 0 := by
  refine ⟨bootRead.iterate (.message (.devRevive ⟨12, 0⟩ (some ⟨11, 0⟩) none 0)), ?_, by decide +kernel, ?_⟩
  · refine (reached_bootRead trivial trivial).step trivial (.message bootRead _ ?_ ?_ trivial)
    · decide +kernel
    · decide +kernel
  · refine tally_eq_zero.mpr fun p => if_neg ?_
    revert p
    decide +kernel

end Minix.Vfs
