/-
  Vfs/Wakes.lean --- how suspended processes are woken up.

  Whatever wakes processes up (pipes, locks, select, dead drivers) does it in the small steps of
  `Micro`.  What these keep is kept by all of it.
-/
import Minix.Vfs.Refs

set_option autoImplicit false

namespace Minix.Vfs.State

open Relation Function

variable {i : SelNr} {e : Endpoint} {r : Int} {α : Type} {v : VnodeNr} {call : CallNr}

variable {s s' s'' : State} {D : Endpoint → Prop}

/-- One small step; `D` says which drivers have died.  The processes that wait for these are
woken up, and selects may fail. -/
inductive Micro (D : Endpoint → Prop) : State → State → Prop
  | sel (s : State) (i : SelNr) (e : SelectEntry) (hreq : e.requestor = (s.sel i).requestor)
      (hend : e.endpt = (s.sel i).endpt) : Micro D s (s.setSel i e)
  | filp (s : State) (n : FilpNr) (f : Filp) (hf : f.Same (s.filp n)) : Micro D s (s.setFilp n f)
  | wakeup (s : State) (i : SelNr) (r : Int) (hreq : (s.sel i).requestor.isSome = true) (hr : 0 ≤ r ∨ ∃ e, D e) :
      Micro D s (s.selectWakeup i r)
  | release (s : State) (v : VnodeNr) (call : CallNr) (p : ProcNr) (hrel : s.releases v call p = true)
      (hv : (s.vnode v).type = .fifo) (hcall : call ≠ .fcntl ∧ call ≠ .select) : Micro D s (s.releaseOne p)
  | unlock (s : State) (p : ProcNr) (e : Endpoint) (hblocked : (s.proc p).blockedOn = .lock)
      (hend : (s.proc p).endpoint = some e) : Micro D s (s.revive e 0)
  | undriver (s : State) (p : ProcNr) (e : Endpoint) (r : Int) (hblocked : (s.proc p).blockedOn = .other)
      (hend : (s.proc p).endpoint = some e) (hdriver : D (s.proc p).task) : Micro D s (s.revive e r)

/-- Processes are woken up. -/
abbrev Wakes (D : Endpoint → Prop) : State → State → Prop := ReflTransGen (Micro D)

/-! ## What is kept -/

section

variable (s : State)

theorem SameRefs.setSel {i : SelNr} {e : SelectEntry} : s.SameRefs (s.setSel i e) :=
  { refl s with }

theorem setSel_sel_self (i : SelNr) (e : SelectEntry) : (s.setSel i e).sel i = e :=
  update_self ..

theorem Frame.setSel {e : SelectEntry} (hend : e.endpt = (s.sel i).endpt)
    (hreq : e.requestor = (s.sel i).requestor ∨ e.requestor = none) : s.Frame (s.setSel i e) :=
  { refl s with sel := setSel_rule ⟨hend, hreq⟩ fun _ _ => ⟨rfl, .inl rfl⟩ }

/-- Only what select keeps of a filp is written. -/
theorem SameRefs.setFilp {n : FilpNr} {f : Filp} (hf : f.Same (s.filp n)) : s.SameRefs (s.setFilp n f) :=
  { refl s with
    count := setFilp_rule hf.count fun _ _ => rfl
    vnode := setFilp_rule hf.vnode fun _ _ => rfl
    selBusy := setFilp_rule hf.selBusy fun _ _ => rfl }

/-- A process is released: it is revived, and the count goes down. -/
theorem releaseOne_eq {p : ProcNr} : ∃ s1, (s1 = s ∨ ∃ e, s1 = s.revive e 0) ∧
    (s.releaseOne p = { s1 with suspCount := s1.suspCount - 1 } ∨
      s.releaseOne p = State.panic { s1 with suspCount := s1.suspCount - 1 } .suspNegative) := by
  unfold releaseOne
  rcases (s.proc p).endpoint with _ | e
  · refine ⟨s, .inl rfl, ?_⟩
    simp only []
    split
    · exact .inr rfl
    · exact .inl rfl
  · refine ⟨s.revive e 0, .inr ⟨e, rfl⟩, ?_⟩
    simp only []
    split
    · exact .inr rfl
    · exact .inl rfl

end

theorem Refs.micro (h : s.Refs) (hstep : Micro D s s') : s'.Refs ∧ s.Frame s' := by
  cases hstep with
  | sel i e hreq hend => exact ⟨h.of_quiet (SameRefs.setSel s) rfl, Frame.setSel s hend (.inl hreq)⟩
  | filp n f hf => exact ⟨h.of_quiet (SameRefs.setFilp s hf) rfl, { Frame.refl s with filp := setFilp_rule (fun _ => hf) fun _ _ _ => .refl }⟩
  | wakeup i r =>
    have hrev := h.revive (s.sel i).endpt r
    exact ⟨hrev.of_quiet (SameRefs.setSel _) rfl, (h.revive_frame (s.sel i).endpt r).trans (Frame.setSel _ rfl (.inr rfl))⟩
  | release v call p =>
    obtain ⟨s1, hs1, heq⟩ := s.releaseOne_eq
    have hboth : s1.Refs ∧ s.Frame s1 := by
      rcases hs1 with rfl | ⟨e, rfl⟩
      · exact ⟨h, .refl _⟩
      · exact ⟨h.revive e 0, h.revive_frame e 0⟩
    have hcount : s1.Frame { s1 with suspCount := s1.suspCount - 1 } := { Frame.refl s1 with }
    rcases heq with heq | heq
    all_goals rw [heq]
    · exact ⟨hboth.1.of_quiet { SameRefs.refl s1 with } rfl, hboth.2.trans hcount⟩
    · exact ⟨hboth.1.of_quiet { SameRefs.refl s1 with } rfl, (hboth.2.trans hcount).trans (Frame.panic (.inl rfl))⟩
  | unlock p e => exact ⟨h.revive e 0, h.revive_frame e 0⟩
  | undriver p e r => exact ⟨h.revive e r, h.revive_frame e r⟩

/-- Without a dead driver nobody loses a descriptor. -/
theorem revive_sameRefs (s : State) {e : Endpoint} (hr : 0 ≤ r) : s.SameRefs (s.revive e r) := by
  have hrev := s.revive_revives e r
  generalize s.revive e r = t at hrev
  cases hrev with
  | same => exact .refl s
  | marked p => exact .mark s p
  | went p r' => exact (SameRefs.goOn s p).trans SameRefs.reply
  | ended p => exact ((SameRefs.endIo s p).trans (SameRefs.goOn _ p)).trans SameRefs.reply
  | dropped p _ _ _ hneg => exact absurd hneg (by omega)

theorem Micro.sameRefs (hstep : Micro D s s') (hD : ∀ e, ¬ D e) : s.SameRefs s' := by
  cases hstep with
  | sel i e => exact SameRefs.setSel s
  | filp n f hf => exact SameRefs.setFilp s hf
  | wakeup i r hreq hr =>
    have hr : 0 ≤ r := hr.resolve_right fun ⟨e, he⟩ => hD e he
    exact (s.revive_sameRefs hr).trans (SameRefs.setSel _)
  | release v call p =>
    obtain ⟨s1, hs1, heq⟩ := s.releaseOne_eq
    have hsame : s.SameRefs s1 := by
      rcases hs1 with rfl | ⟨e, rfl⟩
      · exact .refl _
      · exact s.revive_sameRefs le_rfl
    rcases heq with heq | heq
    all_goals
      rw [heq]
      exact hsame.trans { SameRefs.refl s1 with }
  | unlock p e => exact s.revive_sameRefs le_rfl
  | undriver p e r _ _ hdriver => exact absurd hdriver (hD _)

theorem Wakes.sameRefs (hrun : Wakes D s s') (hD : ∀ e, ¬ D e) : s.SameRefs s' := by
  induction hrun with
  | refl => exact .refl s
  | tail _ hstep ih => exact ih.trans (hstep.sameRefs hD)

theorem Refs.wakes (h : s.Refs) (hrun : Wakes D s s') : s'.Refs ∧ s.Frame s' := by
  induction hrun with
  | refl => exact ⟨h, .refl s⟩
  | tail _ hstep ih =>
    obtain ⟨hrefs, hframe⟩ := ih.1.micro hstep
    exact ⟨hrefs, ih.2.trans hframe⟩

/-! ## Select -/

/-- The slot of a select is written, for the same process. -/
theorem setSel_wakes (s : State) (i : SelNr) {e : SelectEntry} (hreq : e.requestor = (s.sel i).requestor)
    (hend : e.endpt = (s.sel i).endpt) : Wakes D s (s.setSel i e) :=
  .single (.sel s i e hreq hend)

theorem setFilp_wakes {s : State} {n : FilpNr} {f : Filp} (hf : f.Same (s.filp n)) : Wakes D s (s.setFilp n f) :=
  .single (.filp s n f hf)

/-- The process of a slot. -/
def owner (s : State) (i : SelNr) : Option ProcNr × Endpoint := ((s.sel i).requestor, (s.sel i).endpt)

theorem cancelFd_wakes (i : SelNr) (s : State) (fd : Fd) :
    Wakes D s (cancelFd i s fd) ∧ (cancelFd i s fd).owner i = s.owner i ∧ (cancelFd i s fd).proc = s.proc := by
  unfold cancelFd
  rcases (s.sel i).filps fd with _ | n
  · exact ⟨.refl, rfl, rfl⟩
  simp only []
  split
  · exact ⟨.refl, rfl, rfl⟩
  refine ⟨?_, ?_, rfl⟩
  · refine (setFilp_wakes ?_).trans ((setSel_wakes _ i ?_ ?_).trans (setFilp_wakes ⟨⟨rfl, rfl⟩, ⟨rfl, rfl, rfl⟩, rfl, rfl, rfl, rfl, rfl⟩))
    · exact ⟨⟨rfl, rfl⟩, ⟨rfl, rfl, rfl⟩, rfl, rfl, rfl, rfl, rfl⟩
    · rfl
    · rfl
  · show ((setSel _ i _).sel i |>.requestor, (setSel _ i _).sel i |>.endpt) = _
    rw [setSel_sel_self]
    rfl

theorem selectCancelAll_wakes (s : State) (i : SelNr) :
    Wakes D s (s.selectCancelAll i) ∧ (s.selectCancelAll i).owner i = s.owner i ∧ (s.selectCancelAll i).proc = s.proc := by
  have hfold : ∀ (l : List Fd) (s : State), Wakes D s (l.foldl (cancelFd i) s) ∧
      (l.foldl (cancelFd i) s).owner i = s.owner i ∧ (l.foldl (cancelFd i) s).proc = s.proc := by
    intro l
    induction l with
    | nil => exact fun s => ⟨.refl, rfl, rfl⟩
    | cons fd rest ih =>
      intro s
      obtain ⟨h1, h2, h3⟩ := cancelFd_wakes (D := D) i s fd
      obtain ⟨h4, h5, h6⟩ := ih (cancelFd i s fd)
      exact ⟨h1.trans h4, h5.trans h2, h6.trans h3⟩
  obtain ⟨h1, h2, h3⟩ := hfold (s.sel i).fds s
  have hcancel : s.selectCancelAll i =
      ((s.sel i).fds.foldl (cancelFd i) s).setSel i
        { ((s.sel i).fds.foldl (cancelFd i) s).sel i with timer := false } := rfl
  rw [hcancel]
  generalize (s.sel i).fds.foldl (cancelFd i) s = t at h1 h2 h3
  refine ⟨h1.trans (setSel_wakes t i rfl rfl), ?_, h3⟩
  unfold owner at h2 ⊢
  rw [setSel_sel_self]
  exact h2

theorem Settled.revive_eq (h : s.Settled e) (r : Int) : s.revive e r = s := by
  unfold revive
  rcases hp : s.isokendpt e with _ | p
  · rfl
  · simp only []
    rcases h p hp with hrev | hidle
    · rw [if_pos hrev]
    · rw [hidle]
      simp

theorem Settled.congr (h : s.Settled e) (hproc : s'.proc = s.proc) : s'.Settled e := by
  intro p hp
  have hp : s.isokendpt e = some p := by
    unfold isokendpt at hp ⊢
    rwa [hproc] at hp
  rw [hproc]
  exact h p hp

/-- The descriptor of an open that has failed is all that the process gives back. -/
theorem dropOpen_eq (s : State) {p : ProcNr} : ∃ fds inuse filp vnode pfs panics,
    s.dropOpen p = { s with
      proc := update s.proc p { s.proc p with fds := fds, inuse := inuse }
      filp := filp, vnode := vnode, pfs := pfs, panics := panics } ∧
    (panics = s.panics ∨ panics = .filpCount :: s.panics) := by
  have hsame : s = { s with proc := update s.proc p (s.proc p) } := by rw [update_eq_self]
  unfold dropOpen
  rcases fdOf (s.proc p).saved.fd with _ | fd
  · exact ⟨_, _, _, _, _, _, hsame, .inl rfl⟩
  simp only []
  rcases (s.proc p).fds fd with _ | n
  · exact ⟨_, _, _, _, _, _, hsame, .inl rfl⟩
  simp only []
  split
  · exact ⟨_, _, _, _, _, _, rfl, .inr rfl⟩
  rcases (s.filp n).vnode with _ | v
  · exact ⟨_, _, _, _, _, _, rfl, .inl rfl⟩
  · simp only []
    unfold dropFilp
    obtain ⟨vnode, pfs, heq⟩ := ((s.setFd p fd none false).setCount n 0).putVnode_rest v
    rw [heq]
    exact ⟨_, _, _, _, _, _, rfl, .inl rfl⟩

theorem dropOpen_blockedOn (s : State) (p q : ProcNr) : ((s.dropOpen p).proc q).blockedOn = (s.proc q).blockedOn := by
  obtain ⟨fds, inuse, filp, vnode, pfs, panics, heq, -⟩ := s.dropOpen_eq
  rw [heq]
  exact setProc_rule (s := s) (p := p) (f := { s.proc p with fds := fds, inuse := inuse }) rfl (fun _ _ => rfl) q

theorem revive_sel (s : State) (e : Endpoint) (r : Int) : (s.revive e r).sel = s.sel := by
  have hrev := s.revive_revives e r
  generalize s.revive e r = t at hrev
  cases hrev with
  | same | marked | went | ended => rfl
  | dropped p =>
    obtain ⟨fds, inuse, filp, vnode, pfs, panics, heq, -⟩ := (s.goOn p).dropOpen_eq
    rw [heq]
    rfl

theorem Refs.endpoint_inj (h : s.Refs) {p q : ProcNr} (hp : (s.proc p).endpoint = some e)
    (hq : e.nr = q.val) : q = p := by
  have := h.slot p e hp
  exact Fin.ext (by omega)

/-- After it has been revived, a process is settled. -/
theorem Refs.settled_revive (h : s.Refs) {e : Endpoint} {r : Int} : (s.revive e r).Settled e := by
  have hrev := s.revive_revives e r
  generalize s.revive e r = t at hrev
  cases hrev with
  | same hsettled => exact hsettled
  | marked p hend =>
    intro q hq
    obtain rfl := h.endpoint_inj hend (isokendpt_eq_some hq).2
    refine .inl ?_
    show ((s.setProc q _).proc q).revived = true
    rw [setProc_proc_self]
  | went p r' hend =>
    intro q hq
    obtain rfl := h.endpoint_inj hend (isokendpt_eq_some hq).2
    exact .inr (goOn_blockedOn s q)
  | ended p hend =>
    intro q hq
    obtain rfl := h.endpoint_inj hend (isokendpt_eq_some hq).2
    exact .inr (goOn_blockedOn _ q)
  | dropped p hend =>
    intro q hq
    obtain rfl := h.endpoint_inj hend (isokendpt_eq_some hq).2
    refine .inr ?_
    show (((s.goOn q).dropOpen q).proc q).blockedOn = .none
    rw [dropOpen_blockedOn, goOn_blockedOn]

/-- A slot of select that can be returned: it has a process, or the process is settled. -/
def Ready (s : State) (i : SelNr) : Prop :=
  (s.sel i).requestor.isSome = true ∨ ((s.sel i).requestor = none ∧ s.Settled (s.sel i).endpt)

theorem Ready.congr (h : s.Ready i) (howner : s'.owner i = s.owner i) (hproc : s'.proc = s.proc) :
    s'.Ready i := by
  obtain ⟨hreq, hend⟩ := Prod.mk.inj howner
  unfold Ready at h ⊢
  rw [hreq, hend]
  exact h.imp id fun h2 => ⟨h2.1, h2.2.congr hproc⟩

theorem Refs.selectWakeup_wakes (h : s.Refs) (hready : s.Ready i) (hr : 0 ≤ r ∨ ∃ e, D e) :
    Wakes D s (s.selectWakeup i r) ∧ (s.selectWakeup i r).Ready i := by
  have hsel : ((s.revive (s.sel i).endpt r).sel i) = s.sel i := by rw [revive_sel]
  refine ⟨?_, .inr ?_⟩
  · rcases hready with hreq | ⟨hnone, hsettled⟩
    · exact .single (.wakeup s i r hreq hr)
    · unfold selectWakeup
      rw [hsettled.revive_eq]
      exact setSel_wakes s i hnone.symm rfl
  · unfold selectWakeup
    simp only [hsel]
    rw [setSel_sel_self]
    exact ⟨rfl, (h.settled_revive).congr rfl⟩

theorem Refs.selectReturn_wakes (h : s.Refs) (hready : s.Ready i) (hr : 0 ≤ r ∨ ∃ e, D e) :
    Wakes D s (s.selectReturn i r) ∧ (s.selectReturn i r).Ready i := by
  obtain ⟨h1, h2, h3⟩ := selectCancelAll_wakes (D := D) s i
  have hr' : 0 ≤ (if r ≠ 0 then r else ((s.selectCancelAll i).sel i).nready) ∨ ∃ e, D e := by
    split
    · exact hr
    · exact .inl (Int.natCast_nonneg _)
  obtain ⟨h4, h5⟩ := (h.wakes h1).1.selectWakeup_wakes (D := D) (hready.congr h2 h3) hr'
  exact ⟨h1.trans h4, h5⟩

theorem foldl_ops2tab_owner {ops : SelOps} {l : List Fd} : ∀ e : SelectEntry,
    (l.foldl (fun e fd => e.ops2tab ops fd) e).requestor = e.requestor ∧
      (l.foldl (fun e fd => e.ops2tab ops fd) e).endpt = e.endpt := by
  induction l with
  | nil => exact fun e => ⟨rfl, rfl⟩
  | cons fd rest ih => exact fun e => ih (e.ops2tab ops fd)

theorem Refs.callbackSlot_wakes (h : s.Refs) {n : FilpNr} {ops : SelOps} {i : SelNr} :
    Wakes D s (callbackSlot n ops s i) := by
  unfold callbackSlot
  split
  · exact .refl
  rename_i hreq
  split
  · exact .refl
  · obtain ⟨h1, h2⟩ := foldl_ops2tab_owner (s.sel i)
    have hset := setSel_wakes (D := D) s i h1 h2
    refine hset.trans ((h.wakes hset).1.selectReturn_wakes (.inl ?_) (.inl le_rfl)).1
    rw [setSel_sel_self, h1]
    simpa [Option.isSome_iff_ne_none] using hreq

/-- A fold in which every part wakes processes up. -/
theorem Refs.foldl_wakes {f : State → α → State} (hf : ∀ s : State, s.Refs → ∀ a, Wakes D s (f s a))
    {l : List α} : ∀ s : State, s.Refs → Wakes D s (l.foldl f s) := by
  induction l with
  | nil => exact fun s _ => .refl
  | cons a rest ih =>
    intro s hs
    have hstep := hf s hs a
    exact hstep.trans (ih (f s a) (hs.wakes hstep).1)

theorem Refs.selectCallback_wakes (h : s.Refs) {n : FilpNr} {ops : SelOps} : Wakes D s (s.selectCallback n ops) :=
  foldl_wakes (fun _ hs i => hs.callbackSlot_wakes) s h

/-- A fold over the descriptors of a slot that stays ready. -/
theorem Refs.foldl_ready {f : State → α → State}
    (hf : ∀ s : State, s.Refs → s.Ready i → ∀ a, Wakes D s (f s a) ∧ (f s a).Ready i) (l : List α) :
    ∀ s : State, s.Refs → s.Ready i → Wakes D s (l.foldl f s) ∧ (l.foldl f s).Ready i := by
  induction l with
  | nil => exact fun s _ hr => ⟨.refl, hr⟩
  | cons a rest ih =>
    intro s hs hr
    obtain ⟨h1, h2⟩ := hf s hs hr a
    obtain ⟨h3, h4⟩ := ih (f s a) (hs.wakes h1).1 h2
    exact ⟨h1.trans h3, h4⟩

/-- A fold over the slots, with another over the descriptors of those that have a process. -/
theorem Refs.foldl_slots_wakes {f : SelNr → State → α → State} {l : State → SelNr → List α}
    (hf : ∀ i, ∀ s : State, s.Refs → s.Ready i → ∀ a, Wakes D s (f i s a) ∧ (f i s a).Ready i) (h : s.Refs) :
    Wakes D s ((List.finRange maxSelects).foldl
      (fun s i => if (s.sel i).requestor.isNone then s else (l s i).foldl (f i) s) s) := by
  refine foldl_wakes (fun s hs i => ?_) s h
  split_ifs with hreq
  · exact .refl
  · refine (foldl_ready (hf i) _ s hs (.inl ?_)).1
    simpa [Option.isSome_iff_ne_none] using hreq

theorem Refs.selectUnsuspendByEndpt_wakes (h : s.Refs) (he : D e) :
    Wakes D s (s.selectUnsuspendByEndpt e) := by
  refine foldl_slots_wakes (f := unsuspendFd e) (l := fun s i => (s.sel i).fds) (fun i s hs hready fd => ?_) h
  unfold unsuspendFd
  rcases ((s.sel i).filps fd).bind s.sdev with _ | ⟨major, minor⟩
  · exact ⟨.refl, hready⟩
  · simp only []
    split
    · exact hs.selectReturn_wakes hready (.inr ⟨e, he⟩)
    · exact ⟨.refl, hready⟩

theorem Refs.selectNotified_wakes (h : s.Refs) (major : Major) (minor : Nat) (selected : SelOps) :
    Wakes D s (s.selectNotified major minor selected) := by
  unfold selectNotified
  split
  · exact .refl
  refine foldl_wakes (fun s hs i => ?_) s h
  split
  · exact .refl
  refine foldl_wakes (fun s hs fd => ?_) s hs
  unfold notifiedFd
  rcases (s.sel i).filps fd with _ | n
  · exact .refl
  · simp only []
    split
    · exact hs.selectCallback_wakes
    · exact .refl

theorem Refs.selectTimeoutCheck_wakes (h : s.Refs) (i : SelNr) : Wakes D s (s.selectTimeoutCheck i) := by
  unfold selectTimeoutCheck
  split_ifs with hreq
  · exact .refl
  have hset := setSel_wakes (D := D) s i (e := { s.sel i with timer := false }) rfl rfl
  refine hset.trans ((h.wakes hset).1.selectReturn_wakes (.inl ?_) (.inl le_rfl)).1
  rw [setSel_sel_self]
  simp only [Bool.or_eq_true, not_or, Option.isNone_iff_eq_none] at hreq
  exact Option.isSome_iff_ne_none.mpr hreq.1

theorem Refs.restartProc_wakes (h : s.Refs) (hready : s.Ready i) :
    Wakes D s (s.restartProc i) ∧ (s.restartProc i).Ready i := by
  -- The slot is written for the same process.
  have hset : ∀ e : SelectEntry, e.requestor = (s.sel i).requestor → e.endpt = (s.sel i).endpt →
      Wakes D s (s.setSel i e) ∧ (s.setSel i e).Ready i := by
    intro e hreq hend
    refine ⟨setSel_wakes s i hreq hend, hready.congr ?_ rfl⟩
    unfold owner
    rw [setSel_sel_self, hreq, hend]
  unfold restartProc
  simp only []
  split
  · exact hset _ rfl rfl
  · obtain ⟨h1, h2⟩ := hset { s.sel i with deferred := false } rfl rfl
    split
    · obtain ⟨h3, h4⟩ := (h.wakes h1).1.selectWakeup_wakes (D := D) h2 (.inl (Int.natCast_nonneg (s.sel i).nready))
      exact ⟨h1.trans h3, h4⟩
    · exact ⟨h1, h2⟩

theorem Refs.filpStatus_wakes (h : s.Refs) (n : FilpNr) (status : Option SelOps) : Wakes D s (s.filpStatus n status) := by
  refine foldl_slots_wakes (f := statusFd n status) (l := fun _ _ => List.finRange openMax)
    (fun i s hs hready fd => ?_) h
  unfold statusFd
  split
  · exact ⟨.refl, hready⟩
  rcases status with _ | ops
  · exact hs.restartProc_wakes hready
  have hset := setSel_wakes (D := D) s i (e := (s.sel i).ops2tab ops fd) rfl rfl
  have hready' : (s.setSel i ((s.sel i).ops2tab ops fd)).Ready i := by
    refine hready.congr ?_ rfl
    unfold owner
    rw [setSel_sel_self]
    rfl
  obtain ⟨h1, h2⟩ := (hs.wakes hset).1.restartProc_wakes (D := D) hready'
  exact ⟨hset.trans h1, h2⟩

theorem reply2Fd_wakes (major : Major) (minor : Nat) (status : Option SelOps) (i : SelNr) (s : State) (fd : Fd) :
    Wakes D s (reply2Fd major minor status i s fd) ∧ (reply2Fd major minor status i s fd).owner i = s.owner i ∧
      (reply2Fd major minor status i s fd).proc = s.proc := by
  unfold reply2Fd
  rcases (s.sel i).filps fd with _ | n
  · exact ⟨.refl, rfl, rfl⟩
  rcases status with _ | ops
  · exact ⟨.refl, rfl, rfl⟩
  simp only []
  split
  · have howner : ∀ t : State, t.sel = s.sel → (t.setSel i ((t.sel i).ops2tab ops fd)).owner i = s.owner i := by
      intro t ht
      unfold owner
      rw [setSel_sel_self, ht]
      rfl
    split
    · exact ⟨setSel_wakes s i rfl rfl, howner s rfl, rfl⟩
    · refine ⟨(setFilp_wakes ?_).trans (setSel_wakes _ i rfl rfl), howner _ rfl, rfl⟩
      exact ⟨⟨rfl, rfl⟩, ⟨rfl, rfl, rfl⟩, rfl, rfl, rfl, rfl, rfl⟩
  · exact ⟨.refl, rfl, rfl⟩

theorem Refs.selectReply2_wakes (h : s.Refs) {source : Endpoint} {minor : Nat} {status : Option SelOps} :
    Wakes D s (s.selectReply2 source minor status) := by
  unfold selectReply2
  rcases s.driverMajor source with _ | major
  · exact .refl
  refine foldl_wakes (fun s hs i => ?_) s h
  unfold reply2Slot
  split_ifs with hreq
  · exact .refl
  have hready : s.Ready i := .inl (by simpa [Option.isSome_iff_ne_none] using hreq)
  obtain ⟨h1, h2⟩ := foldl_ready (D := D) (i := i) (f := reply2Fd major minor status i)
    (fun s _ hr fd => by
      obtain ⟨h1, h2, h3⟩ := reply2Fd_wakes (D := D) major minor status i s fd
      exact ⟨h1, hr.congr h2 h3⟩) (List.finRange openMax) s hs hready
  simp only []
  split
  · exact h1.trans ((hs.wakes h1).1.restartProc_wakes h2).1
  · exact h1

/-! ## Pipes, locks and drivers -/

theorem Refs.releaseSelect_wakes (h : s.Refs) (v : VnodeNr) (call : CallNr) : Wakes D s (s.releaseSelect v call) := by
  refine foldl_wakes (fun s hs n => ?_) s h
  unfold releaseFilp
  split
  · exact .refl
  · refine (hs.selectCallback_wakes).trans (setFilp_wakes ?_)
    exact ⟨⟨rfl, rfl⟩, ⟨rfl, rfl, rfl⟩, rfl, rfl, rfl, rfl, rfl⟩

theorem Refs.releaseLoop_wakes (hcall : call ≠ .fcntl ∧ call ≠ .select) {l : List ProcNr} : ∀ (count : Int) (s : State), s.Refs →
    (s.vnode v).type = .fifo → Wakes D s (releaseLoop v call l count s) := by
  induction l with
  | nil => exact fun _ _ _ _ => .refl
  | cons p rest ih =>
    intro count s hs hv
    rw [releaseLoop]
    split
    · exact .refl
    split_ifs with hrel
    · have hstep : Micro D s (s.releaseOne p) := .release s v call p hrel hv hcall
      obtain ⟨hrefs, hframe⟩ := hs.micro hstep
      exact ReflTransGen.head hstep (ih _ _ hrefs ((hframe.vnode v).file.1.trans hv))
    · exact ih count s hs hv

theorem Refs.release_wakes (h : s.Refs) (hv : (s.vnode v).type = .fifo)
    (hcall : call ≠ .fcntl ∧ call ≠ .select) {count : Int} :
    Wakes D s (s.release v call count) := by
  unfold release
  split
  · have hsel := h.releaseSelect_wakes (D := D) v call
    obtain ⟨hrefs, hframe⟩ := h.wakes hsel
    exact hsel.trans (releaseLoop_wakes hcall count _ hrefs ((hframe.vnode v).file.1.trans hv))
  · exact releaseLoop_wakes hcall count s h hv

theorem lockReviveOne_wakes (s : State) (p : ProcNr) : Wakes D s (s.lockReviveOne p) := by
  unfold lockReviveOne
  split_ifs with hlock
  · rcases hend : (s.proc p).endpoint with _ | e
    · exact .refl
    · exact .single (.unlock s p e hlock.2.2 hend)
  · exact .refl

theorem Refs.lockRevive_wakes (h : s.Refs) : Wakes D s s.lockRevive :=
  foldl_wakes (fun s _ p => s.lockReviveOne_wakes p) s h

theorem Refs.unsuspendByEndpt_wakes (h : s.Refs) (e : Endpoint) : Wakes (· = e) s (s.unsuspendByEndpt e) := by
  have hprocs : Wakes (· = e) s ((List.finRange nrProcs).foldl (unsuspendOne e) s) := by
    refine foldl_wakes (fun s hs p => ?_) s h
    unfold unsuspendOne
    split_ifs with hwait
    · rcases hend : (s.proc p).endpoint with _ | e'
      · exact .refl
      · exact .single (.undriver s p e' eagain hwait.2.1 hend hwait.2.2)
    · exact .refl
  exact hprocs.trans ((h.wakes hprocs).1.selectUnsuspendByEndpt_wakes rfl)

end Minix.Vfs.State
