/-
  Vfs/MainSteps.lean --- the steps of an iteration of the main loop: drivers that are started
  again, processes that start and end, and the processes that are being revived.
-/
import Minix.Vfs.SelectSteps

set_option autoImplicit false

namespace Minix.Vfs

variable {n : FilpNr} {v : VnodeNr} {major : Major} {p q : ProcNr} {driver source e : Endpoint}

namespace State

open Foundation List State

variable {s s' s'' : State} {C : Cause → Prop} {p : ProcNr}

/-! ## Drivers -/

theorem Refs.invalidate_proc (h : s.Refs) (n : FilpNr) (p : ProcNr) : (s.invalidate n).proc p =
    { s.proc p with fds := fun fd => if (s.proc p).fds fd = some n then none else (s.proc p).fds fd } := by
  unfold invalidate
  simp only []
  split_ifs with hlive
  · rfl
  · have hfree := (h.free p (by simpa using hlive)).2
    refine Fproc.ext rfl rfl (funext fun fd => ?_) rfl rfl rfl rfl rfl rfl rfl rfl
    simp [hfree fd]

/-- A process that waits in a pipe has no descriptor of a device. -/
theorem Waits.lost (h : s.Waits p) (hv : (s.filp n).vnode = some v)
    (htype : (s.vnode v).type = .charSpecial) (hproc : s'.proc p =
      { s.proc p with fds := fun fd => if (s.proc p).fds fd = some n then none else (s.proc p).fds fd })
    (hfilp : s'.filp = s.filp) (hvnode : s'.vnode = s.vnode) : s'.Waits p := by
  -- The vnode is the same if the process keeps the descriptor.
  have hsaved : s'.savedVnode p = s.savedVnode p ∨ (s'.savedVnode p = none ∧ s.savedVnode p = some v) := by
    unfold savedVnode
    rw [hproc]
    rcases fdOf (s.proc p).saved.fd with _ | fd
    · exact .inl rfl
    simp only [Option.bind_some]
    rcases hfd : (s.proc p).fds fd with _ | m
    · exact .inl (by simp)
    · by_cases hm : m = n
      · subst hm
        exact .inr (by simp [hv])
      · exact .inl (by simp [hm, hfilp])
  rcases hsaved with hsaved | ⟨hnone, hsome⟩
  · exact h.congr (by rw [hproc]) (by rw [hproc]) (by rw [hproc]) hsaved fun w _ => by rw [hvnode]
  unfold Waits at h ⊢
  rw [hproc]
  simp only [hnone, hsome] at h ⊢
  rcases hb : (s.proc p).blockedOn with _ | _ | _ | _ | _ | _ | _
  all_goals simp only [hb] at h ⊢
  · obtain ⟨-, w, hw, hfifo⟩ := h
    rw [← Option.some.inj hw, htype] at hfifo
    simp at hfifo
  · exact h
  · obtain ⟨-, w, hw, hfifo⟩ := h
    rw [← Option.some.inj hw, htype] at hfifo
    simp at hfifo
  · exact h
  · exact fun w hw => nomatch hw
  · exact fun w hw => nomatch hw

/-- The filp of a device that cannot be opened again is taken from all processes. -/
theorem Refs.steps_lost (h : s.Refs) (hv : (s.filp n).vnode = some v)
    (htype : (s.vnode v).type = .charSpecial) : Steps C s ((s.invalidate n).setCount n 0) := by
  have hproc := h.invalidate_proc n
  have hlive : ∀ p, (s.invalidate n).live p = s.live p := fun p => live_congr (by rw [hproc])
  have hzero : (s.invalidate n).fdRefs n = 0 := by
    refine tally_eq_zero.mpr fun p => tally_eq_zero.mpr fun fd => if_neg ?_
    rw [hproc]
    simp only []
    split
    · simp
    · assumption
  have hless : ∀ m, (s.invalidate n).fdRefs m ≤ s.fdRefs m := by
    intro m
    refine tally_le fun p => tally_le fun fd => ?_
    rw [hproc]
    simp only []
    split
    · simp
    · rfl
  have hsteps : Steps C s (s.invalidate n) := by
    refine .single (.quiet (.of_filps (fun p => ⟨_, _, hproc p⟩) ⟨rfl, rfl, rfl, rfl, rfl, rfl, rfl, .refl⟩ fun m w hm hw =>
      .inl ⟨hm, hw, rfl⟩)) ⟨fun p e he => ?_, fun p hp => ?_, fun m => ?_, fun m hm => ?_, h.held, h.fifo, h.piped, h.mapped,
        h.asynch, fun p hp => ?_⟩
    · rw [hproc] at he
      exact h.slot p e he
    · rw [hlive] at hp
      rw [hproc]
      refine ⟨(h.free p hp).1, fun fd => ?_⟩
      simp [(h.free p hp).2 fd]
    · have h1 := hless m
      have h2 := h.counted m
      show ((s.invalidate n).fdRefs m : Int) ≤ (s.filp m).count
      omega
    · have h1 := hless m
      have h2 := h.busy m hm
      show ((s.invalidate n).fdRefs m : Int) + s.busyRefs m ≤ (s.filp m).count
      omega
    · rw [hlive] at hp
      exact (h.waits p hp).lost hv htype (hproc p) rfl rfl
  exact hsteps.trans (.single (.quiet (.setFilp fun _ hpos => absurd hpos (lt_irrefl 0))) ((hsteps.refs h).setFilp_free hzero rfl))

theorem selectMajorMatch_eq_true (h : s.selectMajorMatch major n = true) :
    ∃ v, (s.filp n).vnode = some v ∧ (s.vnode v).type = .charSpecial := by
  unfold selectMajorMatch at h
  rcases hv : (s.filp n).vnode with _ | v
  · simp [hv] at h
  · simp only [hv, Bool.and_eq_true, decide_eq_true_eq] at h
    exact ⟨v, rfl, h.1⟩

/-- How a process that has the flag waits is told to whom starts the driver. -/
def Restarts (C : Cause → Prop) (major : Major) (s : State) (p : ProcNr) : Prop :=
  s.live p = true → (s.proc p).blockedOn ≠ .dopen → (s.proc p).suspReopen = true →
    C (.restarted major (s.proc p).blockedOn (s.proc p).task)

theorem Restarts.congr (h : Restarts C major s p) (hproc : ∃ fds, s'.proc p = { s.proc p with fds := fds }) :
    Restarts C major s' p := by
  obtain ⟨fds, hproc⟩ := hproc
  unfold Restarts live at h ⊢
  rw [hproc]
  exact h

theorem Refs.reopenFilps_steps (major : Major) (reopened : FilpNr → Int) (l : List FilpNr) : ∀ s : State, s.Refs →
    Steps C s (reopenFilps major reopened l s).2 ∧ (reopenFilps major reopened l s).2.dmap = s.dmap ∧
      ∀ p, ∃ fds, (reopenFilps major reopened l s).2.proc p = { s.proc p with fds := fds } := by
  induction l with
  | nil => exact fun s _ => ⟨.refl s, rfl, fun p => ⟨_, rfl⟩⟩
  | cons n rest ih =>
    intro s h
    rw [reopenFilps]
    split
    · exact ih s h
    rename_i hmatch
    split
    · exact ⟨.refl s, rfl, fun p => ⟨_, rfl⟩⟩
    simp only [not_or, Bool.not_eq_true] at hmatch
    obtain ⟨v, hv, htype⟩ := selectMajorMatch_eq_true (by simpa using hmatch.2.2)
    have hlost := h.steps_lost (C := C) hv htype
    obtain ⟨hsteps, hdmap, hproc⟩ := ih _ (hlost.refs h)
    refine ⟨hlost.trans hsteps, hdmap, fun p => ?_⟩
    obtain ⟨fds, hfds⟩ := hproc p
    have hone := h.invalidate_proc n p
    exact ⟨fds, by rw [hfds]; show ({ (s.invalidate n).proc p with fds := fds } : Fproc) = _; rw [hone]⟩

/-- What is done to a process when its driver has been started again: nothing, or it goes on,
with an answer if it has an endpoint. -/
inductive Restarted (s : State) (p : ProcNr) : State → Prop
  | same : Restarted s p s
  | went (inuse : Fd → Bool) (flag : Bool) :
      Restarted s p (s.setProc p { s.proc p with blockedOn := .none, inuse := inuse, suspReopen := flag })
  | answered (inuse : Fd → Bool) (flag : Bool) {e : Endpoint} (hend : (s.proc p).endpoint = some e) (r : Int) :
      Restarted s p ((s.setProc p { s.proc p with blockedOn := .none, inuse := inuse, suspReopen := flag }).reply e r)

theorem restartOne_restarted (s : State) (driver : Endpoint) (p : ProcNr) : s.Restarted p (s.restartOne driver p) := by
  unfold restartOne
  split
  · rcases hend : (s.proc p).endpoint with _ | e
    · exact .went (s.proc p).inuse false
    · exact .answered (s.proc p).inuse false hend _
  · exact .same

theorem restartOpen_restarted (s : State) (major : Major) (p : ProcNr) : s.Restarted p (s.restartOpen major p) := by
  unfold restartOpen
  simp only []
  split
  · exact .same
  split
  · split
    · exact .went _ (s.proc p).suspReopen
    · rename_i hend
      exact .answered _ (s.proc p).suspReopen hend _
  · split
    · split
      · exact .went (s.proc p).inuse (s.proc p).suspReopen
      · rename_i hend
        exact .answered (s.proc p).inuse (s.proc p).suspReopen hend _
    · exact .same

theorem Restarted.refs (hr : s.Restarted p s') (h : s.Refs) : s'.Refs := by
  have hset : ∀ inuse flag,
      (s.setProc p { s.proc p with blockedOn := .none, inuse := inuse, suspReopen := flag }).Refs := fun _ _ =>
    h.setProc rfl rfl rfl (Waits.idle (by rw [setProc_proc_self]))
  cases hr with
  | same => exact h
  | went inuse flag => exact hset inuse flag
  | answered inuse flag hend r => exact (hset inuse flag).reply _ r

theorem Restarted.other (hr : s.Restarted p s') (hq : q ≠ p) : s'.proc q = s.proc q := by
  cases hr with
  | same => rfl
  | went | answered => exact setProc_proc_of_ne s _ hq

theorem Restarted.locks (hr : s.Restarted p s') : s'.locks = s.locks := by
  cases hr <;> rfl

/-- A process that has been told to try again does not have the flag any more. -/
theorem restartOne_self (s : State) {driver : Endpoint} {p : ProcNr} :
    (s.restartOne driver p).proc p = s.proc p ∨ ((s.restartOne driver p).proc p).suspReopen = false := by
  unfold restartOne
  split
  · split
    all_goals
      right
      show ((s.setProc p _).proc p).suspReopen = false
      rw [setProc_proc_self]
  · exact .inl rfl

section

variable (h : s.Refs)
include h

theorem Refs.steps_restartOne (hC : C (.reopened driver)) (p : ProcNr) :
    Steps C s (s.restartOne driver p) := by
  by_cases hwait : s.live p = true ∧ (s.proc p).blockedOn = .other ∧ (s.proc p).task = driver ∧ (s.proc p).suspReopen = true
  · exact .single (.restartOne driver p hwait hC) ((s.restartOne_restarted driver p).refs h)
  · have hsame : s.restartOne driver p = s := if_neg hwait
    rw [hsame]
    exact .refl s

theorem Refs.steps_restartOpen (hC : Restarts C major s p) : Steps C s (s.restartOpen major p) := by
  by_cases hwait : s.live p = true ∧ (s.proc p).blockedOn ≠ .dopen ∧ (s.proc p).suspReopen = true
  · obtain ⟨hlive, hblocked, hflag⟩ := hwait
    exact .single (.restartOpen major p hlive hblocked hflag (hC hlive hblocked hflag)) ((s.restartOpen_restarted major p).refs h)
  have hsame : s.restartOpen major p = s := by
    refine if_pos ?_
    by_contra hnot
    simp only [not_or, Bool.not_eq_true] at hnot
    exact hwait ⟨by simpa using hnot.1, hnot.2.1, by simpa using hnot.2.2⟩
  rw [hsame]
  exact .refl s

theorem Refs.restartWaiting_steps (hC : C (.reopened driver)) (hre : ∀ p, Restarts C major s p) :
    Steps C s (s.restartWaiting driver) ∧ ∀ p, Restarts C major (s.restartWaiting driver) p := by
  unfold restartWaiting
  generalize finRange nrProcs = l
  induction l generalizing s with
  | nil => exact ⟨.refl s, hre⟩
  | cons q rest ih =>
    have hstep := h.steps_restartOne hC q
    have hnext : ∀ p, Restarts C major (s.restartOne driver q) p := by
      intro p
      by_cases hp : p = q
      · subst hp
        rcases s.restartOne_self with hsame | hflag
        · exact (hre p).congr ⟨_, hsame⟩
        · intro _ _ hset
          exact nomatch hflag.symm.trans hset
      · have hsame := (s.restartOne_restarted driver q).other hp
        exact (hre p).congr ⟨_, hsame⟩
    obtain ⟨hsteps, hlast⟩ := ih (hstep.refs h) hnext
    exact ⟨hstep.trans hsteps, hlast⟩

theorem Refs.restartOpens_steps (hre : ∀ p, Restarts C major s p) : Steps C s (s.restartOpens major) := by
  unfold restartOpens
  have hnodup := nodup_finRange nrProcs
  have hall : ∀ p ∈ finRange nrProcs, Restarts C major s p := fun p _ => hre p
  clear hre
  generalize finRange nrProcs = l at hnodup hall
  induction l generalizing s with
  | nil => exact .refl s
  | cons q rest ih =>
    obtain ⟨hq, hrest⟩ := nodup_cons.mp hnodup
    have hstep := h.steps_restartOpen (hall q mem_cons_self)
    refine hstep.trans (ih (hstep.refs h) hrest fun p hp => ?_)
    have hsame := (s.restartOpen_restarted major q).other (q := p) (by rintro rfl; exact hq hp)
    exact (hall p (mem_cons_of_mem q hp)).congr ⟨_, hsame⟩

theorem Refs.restartReopen_steps {reopened : FilpNr → Int}
    (hdriver : ∀ driver, s.dmap major = some driver → C (.reopened driver)) (hre : ∀ p, Restarts C major s p) :
    Steps C s (s.restartReopen major reopened) := by
  obtain ⟨hsteps, hdmap, hproc⟩ := reopenFilps_steps (C := C) major reopened (finRange nrFilps) s h
  unfold restartReopen
  generalize reopenFilps major reopened (finRange nrFilps) s = out at hsteps hdmap hproc
  obtain ⟨sent, s1⟩ := out
  have hre1 : ∀ p, Restarts C major s1 p := fun p => (hre p).congr (hproc p)
  have hrefs := hsteps.refs h
  rcases sent with _ | _
  · simp only [] at hdmap ⊢
    rcases hd : s1.dmap major with _ | driver
    · exact hsteps.trans (hrefs.restartOpens_steps hre1)
    · obtain ⟨hwait, hre2⟩ := hrefs.restartWaiting_steps (hdriver driver (by rw [← hdmap]; exact hd)) hre1
      exact (hsteps.trans hwait).trans ((hwait.refs hrefs).restartOpens_steps hre2)
  · exact hsteps

/-- The processes that wait for an open of the device are flagged. -/
theorem Refs.steps_flag (major : Major) : Steps C s (s.flagOpens major) := by
  refine .single (.flag (s.waitsForOpen major) fun p hp => ⟨hp.1, hp.2.1⟩) ?_
  have hsame : s.SameRefs (s.flagOpens major) := by
    refine { SameRefs.refl s with pid := fun p => ?_, endpoint := fun p => ?_, fds := fun p => ?_ }
    all_goals
      unfold flagOpens
      simp only []
      split <;> rfl
  refine h.of_same hsame fun p hp => ?_
  by_cases hwait : s.waitsForOpen major p
  · have hself : (s.flagOpens major).proc p = { s.proc p with suspReopen := true } := if_pos hwait
    have hw := h.waits p hp
    have hsaved := hsame.savedVnode (p := p) (by rw [hself])
    unfold Waits at hw ⊢
    simp only [hsaved, hself, hwait.2.1] at hw ⊢
    exact hw
  · have hself : (s.flagOpens major).proc p = s.proc p := if_neg hwait
    exact hsame.waits (h.waits p hp) (by rw [hself]) (by rw [hself]) (by rw [hself])

/-- Filps are marked to be opened again. -/
theorem Refs.steps_stale {major : Major} : Steps C s (s.markStale major) := by
  have hfile : ∀ n, ∃ b, (s.markStale major).filp n = { s.filp n with needsReopen := b } := by
    intro n
    unfold markStale
    simp only []
    split <;> exact ⟨_, rfl⟩
  choose b hb using hfile
  refine .single (.quiet (.of_filps (fun p => ⟨_, _, rfl⟩) ⟨rfl, rfl, rfl, rfl, rfl, rfl, rfl, .refl⟩ fun n v hn hv => .inl ?_))
    (h.of_quiet { SameRefs.refl s with
      count := fun n => by rw [hb], vnode := fun n => by rw [hb], selBusy := fun n => by rw [hb] } rfl)
  rw [hb] at hn hv ⊢
  exact ⟨hn, hv, rfl⟩

theorem Refs.steps_flagged (major : Major) : Steps C s ((s.flagOpens major).markStale major) := by
  have hflag := h.steps_flag (C := C) major
  exact hflag.trans ((hflag.refs h).steps_stale)

theorem Refs.devUp_steps {reopened : FilpNr → Int}
    (hdriver : ∀ driver, s.dmap major = some driver → C (.reopened driver)) (hre : ∀ p, Restarts C major s p) :
    Steps C s (s.devUp major reopened) := by
  have hsteps := h.steps_flagged (C := C) major
  have hre1 : ∀ p, Restarts C major (s.flagOpens major) p := by
    intro p
    by_cases hp : s.waitsForOpen major p
    · intro _ hblocked
      have hself : (s.flagOpens major).proc p = { s.proc p with suspReopen := true } := if_pos hp
      exact absurd (by rw [hself]; exact hp.2.1) hblocked
    · have hsame : (s.flagOpens major).proc p = s.proc p := if_neg hp
      exact (hre p).congr ⟨_, hsame⟩
  have hre2 : ∀ p, Restarts C major ((s.flagOpens major).markStale major) p := hre1
  unfold devUp
  split
  · exact hsteps.trans ((hsteps.refs h).restartReopen_steps hdriver hre2)
  · exact hsteps

theorem Refs.reopenReply_steps {source : Endpoint} {n status : Int} {reopened : FilpNr → Int}
    (hdriver : C (.reopened source)) (hre : ∀ major p, s.dmap major = some source → Restarts C major s p) :
    Steps C s (s.reopenReply source n status reopened) := by
  unfold reopenReply
  split
  · simp only []
    generalize (⟨n.toNat, by omega⟩ : FilpNr) = k
    split
    · exact .refl s
    split
    · exact .refl s
    split
    · exact .refl s
    split
    · exact .refl s
    split
    · exact .refl s
    rename_i major _ _ hdmap
    split
    · exact .refl s
    have hdmap : s.dmap major = some source := by simpa using hdmap
    have hset : Steps C s (s.setFilp k { s.filp k with needsReopen := false }) :=
      h.steps_filp ⟨rfl, rfl, rfl⟩ (.inl rfl)
    refine hset.trans ((hset.refs h).restartReopen_steps (fun driver hd => ?_) fun p => hre major p hdmap)
    rw [show (s.setFilp k { s.filp k with needsReopen := false }).dmap major = _ from hdmap] at hd
    exact Option.some.inj hd ▸ hdriver
  · exact .refl s

/-! ## Answers of drivers -/

/-- `revive` does nothing unless the process is suspended and not marked. -/
theorem Refs.steps_named (hC : ∀ p, (s.proc p).endpoint = some e → (s.proc p).blockedOn ≠ .none →
    (s.proc p).revived = false → C (.named source (s.proc p))) {r : Int} : Steps C s (s.revive e r) := by
  by_cases hset : s.Settled e
  · rw [hset.revive_eq]
    exact .refl s
  unfold Settled at hset
  push Not at hset
  obtain ⟨p, hp, hrev, hblocked⟩ := hset
  have hend := (isokendpt_eq_some hp).1
  have hrev : (s.proc p).revived = false := by simpa using hrev
  exact .single (.named source p e r hend hblocked hrev (hC p hend hblocked hrev)) (h.revive e r)

end

theorem suspendedEp_eq_some {g : Option Nat} (h : s.suspendedEp driver g = some e) :
    ∃ p, (s.proc p).endpoint = some e ∧ (s.proc p).blockedOn = .other ∧ (s.proc p).task = driver := by
  obtain ⟨p, hp, hend⟩ := Option.bind_eq_some_iff.mp h
  have := find?_some hp
  simp only [Bool.and_eq_true, decide_eq_true_eq] at this
  exact ⟨p, hend, this.1.1.2, this.1.2⟩

/-- The processes that DEV_REVIVE may name. -/
def Named (s : State) (source : Endpoint) (named : Option Endpoint) (f : Fproc) : Prop :=
  ∃ p, f = s.proc p ∧ f.blockedOn ≠ .none ∧ f.revived = false ∧
    ((∃ e, named = some e ∧ f.endpoint = some e) ∨ (named = none ∧ f.blockedOn = .other ∧ f.task = source))

theorem Refs.devRevive_steps (h : s.Refs) {source : Endpoint} {named : Option Endpoint} {grant : Option Nat} {status : Int}
    (hC : ∀ f, s.Named source named f → C (.named source f)) : Steps C s (s.devRevive source named grant status) := by
  unfold devRevive
  rcases named with _ | e
  · rcases hep : s.suspendedEp source grant with _ | e
    · exact .refl s
    · obtain ⟨q, hq, hblocked, htask⟩ := suspendedEp_eq_some hep
      refine h.steps_named (fun p hp hb hr => hC _ ⟨p, rfl, hb, hr, .inr ⟨rfl, ?_⟩⟩)
      obtain rfl := h.endpoint_inj hq (h.slot p e hp)
      exact ⟨hblocked, htask⟩
  · exact h.steps_named (fun p hp hb hr => hC _ ⟨p, rfl, hb, hr, .inl ⟨e, rfl, hp⟩⟩)

/-- A suspended process that is not marked has not been touched. -/
theorem Named.of_woken {named : Option Endpoint} {f : Fproc} (h : s'.Named source named f)
    (hw : ∀ p, (s.proc p).Woken (s'.proc p)) : s.Named source named f := by
  obtain ⟨p, rfl, hb, hr, hnamed⟩ := h
  rcases (hw p).asleep hb with heq | heq
  · rw [heq] at hb hr hnamed ⊢
    exact ⟨p, rfl, hb, hr, hnamed⟩
  · rw [heq] at hr
    simp at hr

theorem Refs.devRevive_woken (h : s.Refs) (source : Endpoint) (named : Option Endpoint) (grant : Option Nat) (status : Int)
    (p : ProcNr) : (s.proc p).Woken ((s.devRevive source named grant status).proc p) := by
  unfold devRevive
  rcases named with _ | e
  · rcases s.suspendedEp source grant with _ | e
    · exact .refl
    · exact (h.revive_frame e status).proc p
  · exact (h.revive_frame e status).proc p

theorem Refs.devStatus_steps (h : s.Refs) {source : Endpoint} {answers : List StatusReply}
    (hC : ∀ named grant status f, .revive named grant status ∈ answers → s.Named source named f → C (.named source f)) :
    Steps C s (s.devStatus source answers) := by
  unfold devStatus
  rcases s.driverMajor source with _ | d
  · exact .refl s
  simp only []
  split
  · exact .refl s
  -- All that can have happened to the processes before an answer is that they have been woken up.
  have hfold : ∀ (l : List StatusReply) (t : State), t.Refs → (∀ p, (s.proc p).Woken (t.proc p)) → (∀ a ∈ l, a ∈ answers) →
      Steps C t (l.foldl (statusReply source d) t) := by
    intro l
    induction l with
    | nil => exact fun t _ _ _ => .refl t
    | cons a rest ih =>
      intro t ht hw hmem
      have hstep : Steps C t (statusReply source d t a) ∧ ∀ p, (t.proc p).Woken ((statusReply source d t a).proc p) := by
        cases a with
        | revive named grant status =>
          exact ⟨ht.devRevive_steps fun f hf =>
            hC named grant status f (hmem _ mem_cons_self) (hf.of_woken hw),
            ht.devRevive_woken source named grant status⟩
        | ioReady minor ops =>
          have hrun := ht.selectNotified_wakes (D := fun _ => False) d minor ops
          exact ⟨ht.steps_wakes hrun, (ht.wakes hrun).2.proc⟩
      exact hstep.1.trans (ih _ (hstep.1.refs ht) (fun p => (hw p).trans (hstep.2 p)) fun b hb => hmem b (mem_cons_of_mem a hb))
  exact hfold answers s h (fun p => .refl) fun a ha => ha

/-! ## Processes -/

/-- The child has the descriptors of its parent. -/
theorem Refs.pmFork (h : s.Refs) {parent child : Endpoint} {pid : Nat} (hsend : (Message.pmFork parent child pid).Sendable s) :
    (s.pmFork parent child pid).Refs := by
  obtain ⟨hpid, ⟨p, hp, hlive, hblocked⟩, hrange, hfree⟩ := hsend
  have hidle : (s.proc p).blockedOn = .none := by simpa [blocked] using hblocked
  unfold State.pmFork
  rw [hp]
  simp only []
  rw [dif_pos hrange]
  have hc : ((⟨child.nr.toNat, by omega⟩ : ProcNr).val : Int) = child.nr := by
    simp only []
    omega
  generalize (⟨child.nr.toNat, by omega⟩ : ProcNr) = c at hc
  have hdead := hfree c hc
  obtain ⟨-, hnofds⟩ := h.free c hdead
  have hcount : ∀ n, ((finRange openMax).countP fun fd => decide ((s.proc p).fds fd = some n)) = (s.proc p).refs n :=
    fun n => countP_finRange (fun o => o = some n) (s.proc p).fds
  simp only [hcount]
  generalize hf : ({ s.proc p with pid := pid, endpoint := some child } : Fproc) = f
  have hle : ∀ n, (s.proc p).refs n ≤ s.fdRefs n := fun n => le_tally (fun f => Fproc.refs f n) s.proc p
  -- The filps are counted before the slot is written.
  generalize hs1 : ({ s with filp := fun n => { s.filp n with count := (s.filp n).count + (s.proc p).refs n } } : State) = s1
  have hfilp : ∀ n, s1.filp n = { s.filp n with count := (s.filp n).count + (s.proc p).refs n } := by
    intro n
    rw [← hs1]
  have hpos : ∀ n, 0 < (s1.filp n).count ↔ 0 < (s.filp n).count := by
    intro n
    have h1 := hle n
    have h2 := h.counted n
    rw [hfilp]
    simp only []
    omega
  have hbusy : ∀ n, s1.busyRefs n = s.busyRefs n := fun n => tally_congr fun d => by rw [hfilp, ← hs1]
  have hrefs1 : s1.Refs := by
    rw [← hs1] at hfilp hpos hbusy ⊢
    refine ⟨h.slot, h.free, fun n => ?_, fun n hn => ?_, fun v => ?_, h.fifo, h.piped, h.mapped, h.asynch, fun q =>
      h.waits_of_proc rfl (fun _ _ _ => rfl) fun _ _ => rfl⟩
    · have hold := h.counted n
      show (s.fdRefs n : Int) ≤ (s.filp n).count + (s.proc p).refs n
      omega
    · have hold := h.busy n ((hpos n).mp hn)
      rw [hbusy]
      show (s.fdRefs n : Int) + s.busyRefs n ≤ (s.filp n).count + (s.proc p).refs n
      omega
    · refine le_of_eq_of_le (congrArg Nat.cast (tally_congr fun n => ?_)) (h.held v)
      simp only [hpos n]
  have hproc : s1.proc = s.proc := by rw [← hs1]
  have heq : ({ s.setProc c f with
      filp := fun n => { (s.setProc c f).filp n with
        count := ((s.setProc c f).filp n).count + ((s.proc p).refs n : Nat) } } : State) = s1.setProc c f := by
    rw [← hs1]
    rfl
  rw [heq]
  refine hrefs1.writeProc (fun e he => ?_) (fun h0 => absurd h0 (by rwa [← hf])) (fun n => ?_) fun _ => Waits.idle ?_
  · rw [← hf] at he
    rw [← Option.some.inj he]
    exact hc.symm
  · have hset := s1.fdRefs_setProc c f n
    have hsame : s1.fdRefs n = s.fdRefs n := congrArg _ hproc
    have hchild : f.refs n = (s.proc p).refs n := by
      rw [← hf]
      rfl
    have h1 := hle n
    have h2 := h.counted n
    have h3 := h.busy n
    rw [hbusy, hfilp]
    simp only []
    omega
  · rw [setProc_proc_self, ← hf]
    exact hidle

theorem Refs.selectForget_same (h : s.Refs) (e : Endpoint) :
    s.SameRefs (s.selectForget e) ∧ (s.selectForget e).proc = s.proc ∧ (s.selectForget e).locks = s.locks := by
  unfold selectForget
  split
  · exact ⟨.refl s, rfl, rfl⟩
  · rename_i i _
    obtain ⟨hrun, -, hproc⟩ := s.selectCancelAll_wakes (D := fun _ => False) i
    exact ⟨(hrun.sameRefs fun _ hf => hf).trans (SameRefs.setSel _), hproc, (h.wakes hrun).2.locks⟩

theorem unmark_other (s : State) (hq : q ≠ p) : (s.unmark p).proc q = s.proc q :=
  setProc_proc_of_ne s _ hq

theorem unmark_self (s : State) (p : ProcNr) : (s.unmark p).proc p = { s.proc p with revived := false } :=
  setProc_proc_self ..

/-- What `unpause` leaves of a process: it is not suspended any more, or it still waits for a driver. -/
structure Unpaused (s s' : State) (p : ProcNr) : Prop where
  refs : s'.Refs
  exits : (s'.proc p).blockedOn = .none ∨ (s'.proc p).blockedOn = .dopen ∨ (s'.proc p).blockedOn = .other
  slot : (s'.proc p).pid = (s.proc p).pid ∧ (s'.proc p).endpoint = (s.proc p).endpoint
  rest : s'.locks = s.locks ∧ ∀ q, q ≠ p → s'.proc q = s.proc q

theorem Refs.interrupt (h : s.Refs) (p : ProcNr) (e : Endpoint) (status : Int) : s.Unpaused (s.interrupt p e status) p := by
  have hproc : (s.interrupt p e status).proc p = { s.proc p with blockedOn := .none } := setProc_proc_self ..
  refine ⟨(h.goOn).reply e status, .inl ?_, ?_, rfl, fun q hq => setProc_proc_of_ne s _ hq⟩
  · rw [hproc]
  · rw [hproc]
    exact ⟨rfl, rfl⟩

theorem Unpaused.of_same {s1 : State} (h : s1.Unpaused s' p) (hpid : (s1.proc p).pid = (s.proc p).pid)
    (hend : (s1.proc p).endpoint = (s.proc p).endpoint) (hrest : s1.locks = s.locks ∧ ∀ q, q ≠ p → s1.proc q = s.proc q) :
    s.Unpaused s' p :=
  ⟨h.refs, h.exits, ⟨h.slot.1.trans hpid, h.slot.2.trans hend⟩, h.rest.1.trans hrest.1,
    fun q hq => (h.rest.2 q hq).trans (hrest.2 q hq)⟩

/-- `unpause` first takes back that the process is being revived. -/
def unpaused (s : State) (p : ProcNr) : State := if (s.proc p).revived then s.unmark p else s

/-- What `unpause` can do to a process. -/
inductive Unpauses (s : State) (p : ProcNr) (e : Endpoint) : State → Prop
  | same (hb : (s.proc p).blockedOn = .none) : Unpauses s p e s
  | waits (hb : (s.proc p).blockedOn = .dopen ∨ (s.proc p).blockedOn = .other) : Unpauses s p e (s.unpaused p)
  | woken (hb : (s.proc p).blockedOn = .lock ∨
        ((s.proc p).blockedOn = .pipe ∨ (s.proc p).blockedOn = .popen) ∧ (s.proc p).revived = true) :
      Unpauses s p e ((s.unpaused p).interrupt p e eintr)
  | counted (hb : (s.proc p).blockedOn = .pipe ∨ (s.proc p).blockedOn = .popen) (hrev : (s.proc p).revived = false) :
      Unpauses s p e { (s.unpaused p).interrupt p e eintr with suspCount := ((s.unpaused p).interrupt p e eintr).suspCount - 1 }
  | select (hb : (s.proc p).blockedOn = .select) : Unpauses s p e (((s.unpaused p).selectForget e).interrupt p e eintr)
  | other (hb : (s.proc p).blockedOn = .other) (reopen : Bool) (grant : Option Nat) (r : Int) :
      Unpauses s p e (((s.unpaused p).setProc p { (s.unpaused p).proc p with suspReopen := reopen, grant := grant }).interrupt p e r)

theorem unpause_unpauses (hp : s.isokendpt e = some p) (cancel : Option Int) : s.Unpauses p e (s.unpause e cancel) := by
  unfold unpause
  rw [hp]
  simp only []
  split
  · rename_i hb
    exact .same hb
  generalize hs1 : (if (s.proc p).revived = true then s.unmark p else s) = s1
  obtain rfl : s.unpaused p = s1 := hs1
  rcases hb : (s.proc p).blockedOn with _ | _ | _ | _ | _ | _ | _
  · exact .same hb
  · simp only []
    split_ifs with hrev
    · exact .woken (.inr ⟨.inl hb, hrev⟩)
    · exact .counted (.inl hb) (by simpa using hrev)
  · exact .woken (.inl hb)
  · simp only []
    split_ifs with hrev
    · exact .woken (.inr ⟨.inr hb, hrev⟩)
    · exact .counted (.inr hb) (by simpa using hrev)
  · exact .select hb
  · exact .waits (.inl hb)
  · simp only []
    split
    · exact .other hb false _ _
    · rcases cancel with _ | status
      · exact .waits (.inr hb)
      · exact .other hb _ none _

theorem Refs.unpause_spec (h : s.Refs) (hp : s.isokendpt e = some p) (cancel : Option Int) :
    s.Unpaused (s.unpause e cancel) p := by
  have hrun := unpause_unpauses hp cancel
  generalize s.unpause e cancel = t at hrun ⊢
  have hrefs : (s.unpaused p).Refs ∧ (∃ b, (s.unpaused p).proc p = { s.proc p with revived := b }) ∧
      (s.unpaused p).locks = s.locks ∧ ∀ q, q ≠ p → (s.unpaused p).proc q = s.proc q := by
    unfold unpaused
    split
    · exact ⟨h.unmark p, ⟨_, unmark_self s p⟩, rfl, fun q hq => unmark_other s hq⟩
    · exact ⟨h, ⟨_, rfl⟩, rfl, fun _ _ => rfl⟩
  obtain ⟨hrefs, ⟨b, hself⟩, hrest⟩ := hrefs
  have hwake := (hrefs.interrupt p e eintr).of_same (s := s) (by rw [hself]) (by rw [hself]) hrest
  cases hrun with
  | same hb => exact ⟨h, .inl hb, ⟨rfl, rfl⟩, rfl, fun _ _ => rfl⟩
  | waits hb => exact ⟨hrefs, .inr (by rw [hself]; exact hb), by rw [hself]; exact ⟨rfl, rfl⟩, hrest⟩
  | woken => exact hwake
  | counted => exact ⟨hwake.refs.of_quiet { SameRefs.refl _ with } rfl, hwake.exits, hwake.slot, hwake.rest⟩
  | select =>
    obtain ⟨hsame, hproc, hlocks⟩ := hrefs.selectForget_same e
    exact ((hrefs.of_quiet hsame hproc).interrupt p e eintr).of_same (by rw [hproc, hself]) (by rw [hproc, hself])
      ⟨hlocks.trans hrest.1, by rw [hproc]; exact hrest.2⟩
  | other hb reopen grant r =>
    -- The slot is written before the process goes on.
    have heq : ∀ f : Fproc, ((s.unpaused p).setProc p f).interrupt p e r =
        ((s.unpaused p).setProc p { f with blockedOn := .none }).reply e r := by
      intro f
      unfold State.interrupt State.goOn State.setProc
      simp only [Function.update_self, Function.update_idem]
    rw [heq]
    refine ⟨.reply (hrefs.setProc (by rfl) (by rfl) (by rfl) (Waits.idle (by rw [setProc_proc_self]))) e r, .inl ?_, ?_, hrest.1,
      fun q hq => (setProc_proc_of_ne _ _ hq).trans (hrest.2 q hq)⟩
    · exact congrArg Fproc.blockedOn (setProc_proc_self ..)
    · show (((s.unpaused p).setProc p _).proc p).pid = _ ∧ (((s.unpaused p).setProc p _).proc p).endpoint = _
      rw [setProc_proc_self, hself]
      exact ⟨rfl, rfl⟩

theorem Refs.steps_unpause (h : s.Refs) (hC : C (.unpaused e)) {cancel : Option Int} : Steps C s (s.unpause e cancel) := by
  refine .single (.unpause e cancel hC) ?_
  rcases hp : s.isokendpt e with _ | p
  · unfold unpause
    rw [hp]
    exact h
  · exact (h.unpause_spec hp cancel).refs

/-- A process that has no descriptors is gone. -/
theorem Refs.exit (h : s.Refs) (hfds : ∀ fd, (s.proc p).fds fd = none) :
    (s.setProc p { s.proc p with endpoint := none, pid := 0 }).Refs := by
  refine h.writeProc (fun e he => nomatch he) (fun _ => ⟨rfl, hfds⟩) (fun n => .inl ?_) fun hpid => absurd rfl hpid
  have hset := s.fdRefs_setProc p { s.proc p with endpoint := none, pid := 0 } n
  have hsame : Fproc.refs { s.proc p with endpoint := none, pid := 0 } n = (s.proc p).refs n := rfl
  omega

/-- All descriptors of a process are closed. -/
theorem Refs.closeAll_steps (truncated : Fd → Bool) (l : List Fd) : ∀ s : State, s.Refs → s.Exits p →
    let s' := l.foldl (fun s fd => (s.closeFd p fd.val (truncated fd)).2) s
    Steps C s s' ∧ s'.Exits p ∧ (s'.proc p).endpoint = (s.proc p).endpoint ∧
      (∀ fd n, (s'.proc p).fds fd = some n → (s.proc p).fds fd = some n) ∧ ∀ fd ∈ l, (s'.proc p).fds fd = none := by
  induction l with
  | nil => exact fun s _ hp => ⟨.refl s, hp, rfl, fun _ _ hn => hn, by simp⟩
  | cons fd rest ih =>
    intro s h hp
    obtain ⟨hsteps, hclosed⟩ := h.closeFd_steps (C := C) hp fd.val (truncated fd)
    obtain ⟨h1, h2, h3, h4, h5⟩ := ih _ (hsteps.refs h) hclosed.exits
    refine ⟨hsteps.trans h1, h2, h3.trans hclosed.endpoint, fun k n hn => hclosed.fds k n (h4 k n hn), fun k hk => ?_⟩
    rcases mem_cons.mp hk with rfl | hk
    · rw [Option.eq_none_iff_forall_ne_some]
      intro n hn
      have := hclosed.closed k (fdOf_val k)
      rw [h4 k n hn] at this
      simp at this
    · exact h5 k hk

theorem Refs.freeProc_steps (h : s.Refs) (hp : s.isokendpt e = some p) (cancel : Option Int)
    (truncated : Fd → Bool) (hC : C (.unpaused e)) (hdied : C (.died e)) : Steps C s (s.freeProc p e cancel truncated) := by
  have hend := (isokendpt_eq_some hp).1
  have hlive := h.live_of_endpoint hend
  unfold freeProc
  simp only []
  generalize hs1 : (if s.blocked p = true then s.unpause e cancel else s) = s1
  have hfirst : Steps C s s1 ∧ s1.Exits p ∧ (s1.proc p).endpoint = some e := by
    rw [← hs1]
    split_ifs with hidle
    · have hun := h.unpause_spec hp cancel
      exact ⟨h.steps_unpause hC, ⟨by rw [live_congr hun.slot.1]; exact hlive, hun.exits⟩, hun.slot.2.trans hend⟩
    · exact ⟨.refl s, ⟨hlive, .inl (by simpa [blocked] using hidle)⟩, hend⟩
  obtain ⟨hsteps1, hexits1, hend1⟩ := hfirst
  obtain ⟨hsteps2, hexits2, hend2, -, hnone⟩ := closeAll_steps (C := C) truncated (finRange openMax) s1 (hsteps1.refs h) hexits1
  generalize (finRange openMax).foldl (fun s fd => (s.closeFd p fd.val (truncated fd)).2) s1 = s2 at hsteps2 hexits2 hend2 hnone
  have hrefs2 := hsteps2.refs (hsteps1.refs h)
  have hrun := hrefs2.unsuspendByEndpt_wakes e
  have hsteps3 : Steps C s2 (s2.unsuspendByEndpt e) := hrefs2.steps_of_wakes (D := (· = e)) (fun d hd => by rw [hd]; exact hdied) hrun
  have hwoken := (hrefs2.wakes hrun).2.proc p
  generalize s2.unsuspendByEndpt e = s3 at hsteps3 hwoken
  have hexits3 := hexits2.woken hwoken
  refine ((hsteps1.trans hsteps2).trans hsteps3).trans (.single (.exit p e ?_ hC hexits3.2) ((hsteps3.refs hrefs2).exit fun fd => ?_))
  · rw [hwoken.slot.2.1, hend2, hend1]
  · rw [Option.eq_none_iff_forall_ne_some]
    intro n hn
    have := hnone fd (mem_finRange fd)
    rw [hwoken.fds fd n hn] at this
    simp at this

/-! ## Processes that are being revived -/

theorem take_self (s : State) (p : ProcNr) : (s.take p).proc p = { s.proc p with revived := false, blockedOn := .none } := by
  unfold take goOn
  rw [setProc_proc_self, unmark_self]

/-- The pipe that a process waits for is tried again. -/
theorem Refs.retryPipe_steps (h : s.Refs) (hp : s.Idle p) (hend : (s.proc p).endpoint = some e) {k : SavedCall}
    (hsaved : ((fdOf k.fd).bind (s.proc p).fds).bind (fun n => (s.filp n).vnode) = some v)
    (htype : (s.vnode v).type = .fifo) (c : Copy) : Steps C s (s.retryPipe p e k c) := by
  obtain ⟨n, hn, hv⟩ := Option.bind_eq_some_iff.mp hsaved
  obtain ⟨fd, hfd, hn⟩ := Option.bind_eq_some_iff.mp hn
  have hget : s.getFilp p k.fd = .ok (fd, n) := by
    unfold getFilp
    rw [hfd]
    simp only [hn]
  unfold retryPipe
  rw [hget]
  refine (h.rwPipe_steps hp hfd hn (fun w hw => ?_) k.buffer k.nbytes c).answer h hend
  rw [← Option.some.inj (hv.symm.trans hw)]
  exact htype

theorem Refs.retryLock_steps (h : s.Refs) (hp : s.Idle p) (hend : (s.proc p).endpoint = some e) {k : SavedCall}
    {flock : Flock} : Steps C s (s.retryLock p e k flock) := by
  unfold retryLock
  rcases hget : s.getFilp p k.fd with r | ⟨fd, n⟩
  · exact .single (.reply p e r hend hp.2) (h.reply e r)
  · exact (h.doLock_steps hp (h.count_pos (getFilp_eq_ok hget).2)).answer h hend

theorem Refs.take_steps (h : s.Refs) (hlive : s.live p = true) (hrev : (s.proc p).revived = true) : Steps C s (s.take p) :=
  .single (.take p hlive hrev) ((h.unmark p).goOn)

theorem take_idle (hlive : s.live p = true) : (s.take p).Idle p := by
  have hself := s.take_self p
  refine ⟨?_, by rw [hself]⟩
  rw [live_congr (s := s) (by rw [hself])]
  exact hlive

theorem take_endpoint (hend : (s.proc p).endpoint = some e) : ((s.take p).proc p).endpoint = some e := by
  rw [take_self]
  exact hend

/-- A process that has waited for a pipe is taken. -/
theorem Refs.takePipe_steps (h : s.Refs) (hlive : s.live p = true) (hrev : (s.proc p).revived = true)
    (hpipe : (s.proc p).blockedOn = .pipe) (hend : (s.proc p).endpoint = some e) (c : Copy) :
    Steps C s ((s.take p).retryPipe p e (s.proc p).saved c) := by
  have hstep := h.take_steps (C := C) hlive hrev
  have hwait := h.waits p hlive
  simp only [Waits, hpipe] at hwait
  obtain ⟨-, v, hv, htype⟩ := hwait
  exact hstep.trans ((hstep.refs h).retryPipe_steps (take_idle hlive) (take_endpoint hend) (v := v)
    (by rw [take_self]; exact hv) htype c)

/-- Before a process has been found, the state is as it has been. -/
theorem Refs.getWork_steps {env : ProcNr → ReviveEnv} {l : List ProcNr} : ∀ (found : Bool) (s : State), s.Refs →
    (found = true ∨ (s.reviving ≠ 0 ∧ ∀ p, p ∉ l → s.live p = true → (s.proc p).revived = false)) →
    Steps C s (getWork env l found s) := by
  induction l with
  | nil =>
    intro found s h hfound
    rw [getWork]
    split_ifs with hnot
    · exact .refl s
    · have hwhy : s.Reason .noneRevived := by
        obtain ⟨hrev, hall⟩ := hfound.resolve_left hnot
        exact ⟨hrev, fun p hp => hall p (by simp) hp⟩
      exact h.steps_panic hwhy
  | cons p rest ih =>
    intro found s h hfound
    rw [getWork]
    split
    · rename_i htake
      simp only [Bool.and_eq_true] at htake
      obtain ⟨hlive, hrev⟩ := htake
      have hstep := h.take_steps (C := C) hlive hrev
      split
      · exact hstep
      rename_i hend
      split_ifs with hpipe
      · have hretry := h.takePipe_steps (C := C) hlive hrev hpipe hend (env p).copy
        exact hretry.trans (ih true _ (hretry.refs h) (.inl rfl))
      · exact hstep.trans ((hstep.refs h).retryLock_steps (take_idle hlive) (take_endpoint hend))
    · rename_i hskip
      refine ih found s h (hfound.imp id fun ⟨hrev, hall⟩ => ⟨hrev, fun q hq hlive => ?_⟩)
      by_cases hqp : q = p
      · subst hqp
        simpa [hlive] using hskip
      · exact hall q (by simp [hqp, hq]) hlive

/-! ## The loop -/

/-- The slot belongs to the same process, and a process that makes a call is not suspended. -/
def Kept (s s' : State) (p : ProcNr) : Prop :=
  (s'.proc p).pid = (s.proc p).pid ∧ (s'.proc p).endpoint = (s.proc p).endpoint ∧
    ((s.proc p).blockedOn = .none → (s'.proc p).blockedOn = .none)

theorem Kept.refl {s : State} {p : ProcNr} : s.Kept s p := ⟨rfl, rfl, id⟩

theorem Kept.trans (h : s.Kept s' p) (h' : s'.Kept s'' p) : s.Kept s'' p :=
  ⟨h'.1.trans h.1, h'.2.1.trans h.2.1, fun hp => h'.2.2 (h.2.2 hp)⟩

theorem foldl_kept {α : Type} {f : State → α → State} (hf : ∀ (s : State) a, s.Kept (f s a) p) {l : List α} :
    ∀ s : State, s.Kept (l.foldl f s) p := by
  induction l with
  | nil => exact fun s => .refl
  | cons a rest ih => exact fun s => (hf s a).trans (ih (f s a))

theorem Restarted.kept (hr : s.Restarted q s') {p : ProcNr} : s.Kept s' p := by
  cases hr with
  | same => exact .refl
  | went | answered =>
    unfold Kept
    exact setProc_rule ⟨rfl, rfl, fun _ => rfl⟩ (fun _ _ => ⟨rfl, rfl, id⟩) p

variable (h : s.Refs) (major : Major) (reopened : FilpNr → Int) (p : ProcNr)
include h

theorem Refs.restartReopen_kept : s.Kept (s.restartReopen major reopened) p := by
  obtain ⟨-, -, hproc⟩ := reopenFilps_steps (C := fun _ => True) major reopened (finRange nrFilps) s h
  unfold restartReopen
  generalize reopenFilps major reopened (finRange nrFilps) s = out at hproc
  obtain ⟨sent, s1⟩ := out
  have hkept : s.Kept s1 p := by
    obtain ⟨fds, hfds⟩ := hproc p
    unfold Kept
    rw [hfds]
    exact ⟨rfl, rfl, id⟩
  rcases sent with _ | _
  · simp only []
    rcases s1.dmap major with _ | driver
    · exact hkept.trans (foldl_kept (fun t q => (t.restartOpen_restarted major q).kept) _)
    · exact (hkept.trans (foldl_kept (fun t q => (t.restartOne_restarted driver q).kept) _)).trans (foldl_kept (fun t q => (t.restartOpen_restarted major q).kept) _)
  · exact hkept

theorem Refs.devUp_kept : s.Kept (s.devUp major reopened) p := by
  have hflag : s.Kept (s.flagOpens major) p := by
    unfold Kept flagOpens
    simp only []
    split <;> exact ⟨rfl, rfl, id⟩
  have hmark : s.Kept ((s.flagOpens major).markStale major) p := hflag
  unfold devUp
  split
  · exact hmark.trans (((h.steps_flagged (C := fun _ => True) major).refs h).restartReopen_kept major reopened p)
  · exact hmark

end State

/-- What a message asks for, in the state in which it comes. -/
inductive Message.Causes (s : State) : Message → Cause → Prop
  | seeks {p : ProcNr} {fd inhibread : Int} {offset pos : BitVec 64} {whence : Whence} {n : FilpNr}
      (hseek : s.SeeksTo p fd offset whence n pos) : Causes s (.call p (.llseek fd offset whence inhibread)) (.seeks n pos)
  | ftruncates {p : ProcNr} {fd : Int} {length : BitVec 32} {ok : Bool} {k : Fd} {n : FilpNr} {v : VnodeNr}
      (hn : s.getFilp p fd = .ok (k, n)) (hv : (s.filp n).vnode = some v) (htype : (s.vnode v).type = .fifo) :
      Causes s (.call p (.ftruncate fd length ok)) (.truncates v)
  | truncates {p : ProcNr} {info : NodeInfo} {c : Bool} {access : Int} {length : BitVec 32} {ok : Bool} {v : VnodeNr} {s1 : State}
      (hget : s.getVnode info = .ok (v, s1)) (hv : 0 < (s.vnode v).refCount) (htype : (s.vnode v).type = .fifo) :
      Causes s (.call p (.truncate (.node info c) access length ok)) (.truncates v)
  | mapped {p : ProcNr} {major : Major} {driver : Endpoint} {reopened : FilpNr → Int} :
      Causes s (.call p (.mapdriver major driver true true reopened)) (.reopened driver)
  | started {p q : ProcNr} {major : Major} {driver : Endpoint} {reopened : FilpNr → Int} (hlive : s.live q = true)
      (hwait : (s.proc q).blockedOn ≠ .dopen) (hflag : (s.proc q).suspReopen = true) :
      Causes s (.call p (.mapdriver major driver true true reopened)) (.restarted major (s.proc q).blockedOn (s.proc q).task)
  | named {source : Endpoint} {named : Option Endpoint} {grant : Option Nat} {status : Int} {f : Fproc}
      (hnamed : s.Named source named f) : Causes s (.devRevive source named grant status) (.named source f)
  | answered {source : Endpoint} {answers : List StatusReply} {named : Option Endpoint} {grant : Option Nat} {status : Int} {f : Fproc}
      (hmem : .revive named grant status ∈ answers) (hnamed : s.Named source named f) :
      Causes s (.devNotify source answers) (.named source f)
  | reopened {source : Endpoint} {n status : Int} {reopened : FilpNr → Int} :
      Causes s (.reopenReply source n status reopened) (.reopened source)
  | restarted {source : Endpoint} {n status : Int} {reopened : FilpNr → Int} {major : Major} {q : ProcNr}
      (hdmap : s.dmap major = some source) (hlive : s.live q = true) (hwait : (s.proc q).blockedOn ≠ .dopen)
      (hflag : (s.proc q).suspReopen = true) :
      Causes s (.reopenReply source n status reopened) (.restarted major (s.proc q).blockedOn (s.proc q).task)
  | interrupted {e : Endpoint} {cancel : Option Int} : Causes s (.pmUnpause e cancel) (.unpaused e)
  | exits {e : Endpoint} {cancel : Option Int} {truncated : Fd → Bool} : Causes s (.pmExit e cancel truncated) (.unpaused e)
  | died {e : Endpoint} {cancel : Option Int} {truncated : Fd → Bool} : Causes s (.pmExit e cancel truncated) (.died e)

/-- What an iteration is asked for. -/
def Input.Causes (s : State) : Input → Cause → Prop
  | .revived _ => fun _ => False
  | .message m => m.Causes s

namespace State

variable {s s' : State} {C : Cause → Prop} {p : ProcNr}

theorem Refs.doCall_steps (h : s.Refs) (hp : s.Idle p) (hend : (s.proc p).endpoint = some e) {c : Call}
    (hC : ∀ cause, (Message.call p c).Causes s cause → C cause) : CallSteps C s p (s.doCall p e c) := by
  cases c with
  | read fd buf nbytes env => exact h.readWrite_steps hp .reading fd buf nbytes env
  | write fd buf nbytes env => exact h.readWrite_steps hp .writing fd buf nbytes env
  | openFile creat flags found env =>
    have hcall : (if creat = true then CallNr.creat else .openCall) = .openCall ∨
        (if creat = true then CallNr.creat else .openCall) = .creat := by
      cases creat
      · exact .inl rfl
      · exact .inr rfl
    exact h.commonOpen_steps hp hcall flags found env
  | close fd truncated => exact h.closeFd_call hp
  | pipe newnode =>
    have hpipe := h.doPipe_steps (C := C) hp newnode
    unfold doCall
    simp only []
    generalize s.doPipe p newnode = out at hpipe
    exact hpipe
  | dup fd fd2 truncated => exact h.doDup_steps hp
  | dupfd fd start =>
    unfold doCall
    simp only []
    rcases hget : s.getFilp p fd with r | ⟨k, n⟩
    · exact .refl hp
    · exact h.doDupfd_steps hp (h.count_pos (getFilp_eq_ok hget).2)
  | setfl fd nonblock append reopen =>
    unfold doCall
    simp only []
    rcases hget : s.getFilp p fd with r | ⟨k, n⟩
    · exact .refl hp
    · exact h.call_filp hp (f := { s.filp n with nonblock := nonblock, append := append, reopen := reopen })
        ⟨rfl, rfl, rfl⟩ (.inl rfl) _
  | lock fd cmd flock =>
    unfold doCall
    simp only []
    rcases hget : s.getFilp p fd with r | ⟨k, n⟩
    · exact .refl hp
    · exact h.doLock_steps hp (h.count_pos (getFilp_eq_ok hget).2)
  | freesp fd flock copied reply =>
    unfold doCall
    simp only []
    rcases hget : s.getFilp p fd with r | ⟨k, n⟩
    · exact .refl hp
    · exact h.doFreesp_steps hp (h.count_pos (getFilp_eq_ok hget).2)
  | lseek fd offset whence inhibread => exact h.doLseek_steps hp
  | llseek fd offset whence inhibread =>
    exact h.doLlseek_steps hp fun n pos hseek => hC _ (.seeks hseek)
  | getdents fd reply => exact h.doGetdents_steps hp
  | truncate found access length ok =>
    refine h.doTruncate_steps hp access length ok ?_
    rintro info c v s1 rfl hget hv htype
    exact hC _ (.truncates hget hv htype)
  | ftruncate fd length ok =>
    exact h.doFtruncate_steps hp fun k n v hn hv htype => hC _ (.ftruncates hn hv htype)
  | ioctl fd request a => exact h.doIoctl_steps hp
  | select a => exact h.doSelect_steps hp hend a
  | mapdriver major driver allowed up reopened =>
    unfold doCall
    rcases allowed with _ | _
    · exact .refl hp
    have htable : Steps C s { s with dmap := Function.update s.dmap major (some driver) } :=
      h.steps_tables .refl (Function.update s.dmap major (some driver))
    have hrefs := htable.refs h
    rcases up with _ | _
    · exact .done htable hp rfl
    simp only [if_true]
    have hkept := hrefs.devUp_kept major reopened p
    refine .done (htable.trans (hrefs.devUp_steps (fun d hd => ?_) fun q hlive hwait hflag => ?_)) ?_ hkept.2.1
    · simp only [Function.update_self, Option.some.injEq] at hd
      exact hd ▸ hC _ .mapped
    · exact hC _ (.started hlive hwait hflag)
    · exact ⟨(live_congr hkept.1).trans hp.1, hkept.2.2 hp.2⟩
  | other r => exact .refl hp

theorem Refs.handle_steps (h : s.Refs) {m : Message} (hsend : m.Sendable s) (hC : ∀ cause, m.Causes s cause → C cause) :
    Steps C s (s.handle m) := by
  cases m with
  | call p c =>
    unfold handle
    simp only []
    rcases hend : (s.proc p).endpoint with _ | e
    · exact .refl s
    · have hp : s.Idle p := ⟨hsend.1, by simpa [blocked] using hsend.2⟩
      exact (h.doCall_steps hp hend hC).answer h hend
  | devRevive source named grant status =>
    exact h.devRevive_steps fun f hf => hC _ (.named hf)
  | reopenReply source n status reopened =>
    exact h.reopenReply_steps (hC _ .reopened) fun major q hdmap hlive hwait hflag =>
      hC _ (.restarted hdmap hlive hwait hflag)
  | selectReply1 source minor status truncated => exact h.selectReply1_steps
  | selectReply2 source minor status => exact h.steps_wakes (h.selectReply2_wakes)
  | clock expired =>
    exact h.steps_wakes (foldl_wakes (fun _ hs i => hs.selectTimeoutCheck_wakes i) s h)
  | devNotify source answers =>
    exact h.devStatus_steps fun named grant status f hmem hf => hC _ (.answered hmem hf)
  | pmFork parent child pid => exact .single (.fork parent child pid hsend) (h.pmFork hsend)
  | pmExit e cancel truncated =>
    unfold handle
    simp only []
    rcases hp : s.isokendpt e with _ | p
    · exact .refl s
    · exact h.freeProc_steps hp cancel truncated (hC _ .exits) (hC _ .died)
  | pmUnpause e cancel => exact h.steps_unpause (hC _ .interrupted)

/-- Every iteration of the main loop is a sequence of steps. -/
theorem Refs.iterates_steps (h : s.Refs) {input : Input} (hit : Iterates s input s') : Steps (input.Causes s) s s' := by
  cases hit with
  | revived env hrun hreviving =>
    unfold iterate
    simp only []
    rw [if_pos hreviving]
    exact getWork_steps false s h (.inr ⟨hreviving, fun p hp => absurd (List.mem_finRange p) hp⟩)
  | message m hrun hreviving hsend =>
    unfold iterate
    simp only []
    rw [if_pos hreviving]
    exact h.handle_steps hsend fun _ hcause => hcause

end State

end Minix.Vfs
