/-
  Vfs/SelectSteps.lean --- the steps of `do_select` and of the answers of drivers to it.
-/
import Minix.Vfs.PipeSteps

set_option autoImplicit false

namespace Minix.Vfs.State

open Foundation Function

variable {v : VnodeNr} {n : FilpNr} {major : Major}

variable {s s' s'' : State} {C : Cause → Prop} {p : ProcNr} {i : SelNr}

/-- A process looks at its descriptors: it is not suspended, and its slot of the table is not
taken. -/
structure Looks (s : State) (p : ProcNr) (i : SelNr) : Prop where
  refs : s.Refs
  idle : s.Idle p
  free : (s.sel i).requestor = none

/-- What is done while the process looks at its descriptors. -/
structure Selecting (C : Cause → Prop) (s : State) (p : ProcNr) (i : SelNr) (s' : State) : Prop where
  steps : Steps C s s'
  proc : s'.proc p = s.proc p
  owner : s'.owner i = s.owner i

namespace Selecting

theorem refl {s : State} : Selecting C s p i s := ⟨.refl s, rfl, rfl⟩

theorem trans (h : Selecting C s p i s') (h' : Selecting C s' p i s'') : Selecting C s p i s'' :=
  ⟨h.steps.trans h'.steps, h'.proc.trans h.proc, h'.owner.trans h.owner⟩

theorem looks (h : Selecting C s p i s') (hl : s.Looks p i) : s'.Looks p i :=
  ⟨h.steps.refs hl.refs, hl.idle.congr h.proc, (congrArg Prod.fst h.owner).trans hl.free⟩

end Selecting

namespace Looks

variable (h : s.Looks p i)
include h

theorem wakes (hrun : Wakes (fun _ => False) s s') : Selecting C s p i s' := by
  obtain ⟨-, hframe⟩ := h.refs.wakes hrun
  refine ⟨h.refs.steps_wakes hrun, (hframe.proc p).idle h.idle.2, ?_⟩
  obtain ⟨hend, hreq⟩ := hframe.sel i
  refine Prod.ext ?_ hend
  show (s'.sel i).requestor = (s.sel i).requestor
  rcases hreq with hreq | hreq
  · exact hreq
  · rw [hreq, h.free]

/-- The filp keeps all but what is of select. -/
theorem setFilp {n : FilpNr} {f : Filp} (hf : f.Same (s.filp n)) : Selecting C s p i (s.setFilp n f) :=
  h.wakes (setFilp_wakes hf)

theorem setSel {e : SelectEntry} (hreq : e.requestor = (s.sel i).requestor) (hend : e.endpt = (s.sel i).endpt) :
    Selecting C s p i (s.setSel i e) :=
  h.wakes (setSel_wakes s i hreq hend)

theorem selectCancelAll : Selecting C s p i (s.selectCancelAll i) := h.wakes (s.selectCancelAll_wakes i).1

theorem countFd {fd : Fd} {n : FilpNr} : Selecting C s p i (s.countFd i fd n) := by
  have hsel : Selecting C s p i (s.setSel i { s.sel i with nfds := fd.val + 1 }) := h.setSel rfl rfl
  exact hsel.trans ((hsel.looks h).setFilp ⟨⟨rfl, rfl⟩, ⟨rfl, rfl, rfl⟩, rfl, rfl, rfl, rfl, rfl⟩)

end Looks

section

variable (h : s.Refs)
include h

section

variable (htype : (s.vnode v).type = .fifo) (n : FilpNr) (ops : SelOps) (pos : Int)
include htype

theorem Refs.pipeReadable_wakes : Wakes (fun _ => False) s (s.pipeReadable n v ops pos).2 := by
  have hcheck := h.pipeCheck_wakes htype .reading false 1 pos true
  unfold pipeReadable
  generalize s.pipeCheck v .reading false 1 pos true = out at hcheck
  obtain ⟨r, s1⟩ := out
  split
  · rcases r with _ | r
    · exact hcheck
    · exact hcheck
  · exact .refl

theorem Refs.pipeWritable_wakes (r1 : SelOps) : Wakes (fun _ => False) s (s.pipeWritable n v ops pos r1).2 := by
  have hcheck := h.pipeCheck_wakes htype .writing false 1 pos true
  unfold pipeWritable
  generalize s.pipeCheck v .writing false 1 pos true = out at hcheck
  obtain ⟨r, s1⟩ := out
  split
  · rcases r with _ | r
    · exact hcheck
    · exact hcheck
  · exact .refl

end

/-- The table of the drivers that have been asked is written.  A filp in it has a reference. -/
theorem Refs.steps_selFilp {o : Option FilpNr}
    (ho : ∀ m, o = some m → major.val = 15 ∧ (s.fdRefs m : Int) + s.busyRefs m + 1 ≤ (s.filp m).count) :
    Steps C s { s with selFilp := update s.selFilp major o } := by
  refine .single (.quiet (.of_filps (fun _ => ⟨_, _, rfl⟩) ⟨rfl, rfl, rfl, rfl, rfl, rfl, rfl, .refl⟩
    fun _ _ hn hv => .inl ⟨hn, hv, rfl⟩)) { h with busy := fun m hm => ?_, asynch := fun d m hd => ?_ }
  · have htally : ({ s with selFilp := update s.selFilp major o } : State).busyRefs m + _ = s.busyRefs m + _ :=
      tally_update (fun o : Option FilpNr => if o = some m ∧ (s.filp m).selBusy = true then 1 else 0) s.selFilp major o
    have hold := h.busy m hm
    show (s.fdRefs m : Int) + ({ s with selFilp := update s.selFilp major o } : State).busyRefs m ≤ (s.filp m).count
    by_cases hom : o = some m
    · have := (ho m hom).2
      split_ifs at htally <;> omega
    · have hnot : ¬ (o = some m ∧ (s.filp m).selBusy = true) := fun hb => hom hb.1
      rw [if_neg hnot] at htally
      omega
  · revert d
    exact (forall_update_iff s.selFilp fun d o => o = some m → d.val = 15).2 ⟨fun hm => (ho m hm).1, fun d _ => h.asynch d m⟩

/-- The driver is asked: until it answers, the filp is kept. -/
theorem Refs.steps_ask (hn : 0 < (s.filp n).count) (hmajor : major.val = 15)
    (hnone : s.selFilp major = none) : Steps C s { s.setFilp n { s.filp n with count := (s.filp n).count + 1, selBusy := true } with
      selFilp := Function.update s.selFilp major (some n) } := by
  -- No other driver has been asked.
  have hall : ∀ d, s.selFilp d ≠ some n := by
    intro d hd
    have : d = major := Fin.ext ((h.asynch d n hd).trans hmajor.symm)
    rw [this, hnone] at hd
    simp at hd
  have hold := h.counted n
  have hself := s.setFilp_filp_self n { s.filp n with count := (s.filp n).count + 1, selBusy := true }
  have hzero : (s.setFilp n { s.filp n with count := (s.filp n).count + 1, selBusy := true }).busyRefs n = 0 :=
    tally_eq_zero.mpr fun d => if_neg fun hd => hall d hd.1
  have hfilp : Steps C s (s.setFilp n { s.filp n with count := (s.filp n).count + 1, selBusy := true }) :=
    .single (.quiet (.setFilp fun v _ hv => .inl ⟨hn, hv, rfl⟩)) (h.setFilp (by simp only []; omega)
      (fun _ => by rw [hzero]; simp only []; omega) (fun v _ hv hnot => absurd ⟨hn, hv⟩ hnot) (.inl rfl))
  refine hfilp.trans ((hfilp.refs h).steps_selFilp fun m hm => ⟨hmajor, ?_⟩)
  obtain rfl := Option.some.inj hm
  rw [hzero, hself]
  show (s.fdRefs n : Int) + 0 + 1 ≤ (s.filp n).count + 1
  omega

end

theorem fdType_pipe (h : s.fdType n = some (.pipe v)) :
    (s.filp n).vnode = some v ∧ (s.vnode v).type = .fifo := by
  unfold fdType at h
  split at h
  · simp at h
  rename_i hv
  split at h
  · simp at h
  · simp at h
  · rename_i htype
    simp only [Option.some.injEq, FdType.pipe.injEq] at h
    exact h ▸ ⟨hv, htype⟩
  · split at h
    · simp at h
    · split at h
      · simp at h
      · split at h <;> simp at h
  · simp at h
  · simp at h

theorem fdType_asynch (h : s.fdType n = some (.asynch major)) : major.val = 15 := by
  unfold fdType at h
  split at h
  · simp at h
  split at h
  · simp at h
  · simp at h
  · simp at h
  · split at h
    · simp at h
    split at h
    · simp at h
    · split at h
      · rename_i hd
        simp only [Option.some.injEq, FdType.asynch.injEq] at h
        exact h ▸ hd
      · simp at h
  · simp at h
  · simp at h

namespace Looks

variable (h : s.Looks p i)
include h

theorem selectRequestPipe (hn : 0 < (s.filp n).count) (hv : (s.filp n).vnode = some v)
    (htype : (s.vnode v).type = .fifo) (ops : SelOps) (block : Bool) :
    Selecting C s p i (s.selectRequestPipe n v ops block).2 := by
  unfold State.selectRequestPipe
  simp only []
  split
  · rename_i hlarge
    have hwhy : s.Reason .pipePosTooLarge :=
      ⟨n, v, hn, hv, by simp [htype, FileType.special], div_ne_zero_le hlarge⟩
    exact ⟨h.refs.steps_panic hwhy, rfl, rfl⟩
  · generalize i32 (s.filp n).pos.toNat = pos
    have hread := h.refs.pipeReadable_wakes htype n ops pos
    generalize s.pipeReadable n v ops pos = out at hread
    obtain ⟨r1, s1⟩ := out
    obtain ⟨hrefs, hframe⟩ := h.refs.wakes hread
    have hwrite := hrefs.pipeWritable_wakes ((hframe.vnode v).file.1.trans htype) n ops pos r1
    generalize s1.pipeWritable n v ops pos r1 = out at hwrite
    obtain ⟨r2, s2⟩ := out
    refine h.wakes (hread.trans (hwrite.trans ?_))
    split
    · exact setFilp_wakes ⟨⟨rfl, rfl⟩, ⟨rfl, rfl, rfl⟩, rfl, rfl, rfl, rfl, rfl⟩
    · exact .refl

theorem selectRequestAsynch (hn : 0 < (s.filp n).count) (hmajor : major.val = 15) {block : Bool} :
    Selecting C s p i (s.selectRequestAsynch n major block).2 := by
  unfold State.selectRequestAsynch
  simp only []
  generalize hf1 : ({ s.filp n with selUpdate := true, selBlock := (s.filp n).selBlock || block } : Filp) = f1
  have hsame1 : f1.Same (s.filp n) := by
    rw [← hf1]
    exact ⟨⟨rfl, rfl⟩, ⟨rfl, rfl, rfl⟩, rfl, rfl, rfl, rfl, rfl⟩
  have hstep1 : Selecting C s p i (s.setFilp n f1) := h.setFilp hsame1
  have hcount1 : ((s.setFilp n f1).filp n).count = (s.filp n).count := by
    rw [setFilp_filp_self]
    exact hsame1.count
  generalize s.setFilp n f1 = s1 at hstep1 hcount1
  have h1 := hstep1.looks h
  split
  · exact hstep1
  rename_i hquiet
  have hstep2 : Selecting C s1 p i (s1.setFilp n { s1.filp n with selUpdate := false }) :=
    h1.setFilp ⟨⟨rfl, rfl⟩, ⟨rfl, rfl, rfl⟩, rfl, rfl, rfl, rfl, rfl⟩
  have hcount2 : ((s1.setFilp n { s1.filp n with selUpdate := false }).filp n).count = (s1.filp n).count := by
    rw [setFilp_filp_self]
  have hnone : (s1.setFilp n { s1.filp n with selUpdate := false }).selFilp major = none := by
    show s1.selFilp major = none
    simpa using fun hsome => hquiet (.inr hsome)
  generalize s1.setFilp n { s1.filp n with selUpdate := false } = s2 at hstep2 hcount2 hnone
  split
  · exact hstep1.trans hstep2
  · exact (hstep1.trans hstep2).trans ⟨(hstep2.looks h1).refs.steps_ask (by omega) hmajor hnone, rfl, rfl⟩

theorem selectRequest (hn : 0 < (s.filp n).count) {type : FdType} (htype : s.fdType n = some type) (ops : SelOps) (block : Bool)
    (answer : Option SelOps) : Selecting C s p i (s.selectRequest n type ops block answer).2 := by
  unfold State.selectRequest
  cases type with
  | file => exact .refl
  | general => rcases answer with _ | ready <;> exact .refl
  | asynch major => exact h.selectRequestAsynch hn (fdType_asynch htype)
  | pipe v =>
    obtain ⟨hv, hfifo⟩ := fdType_pipe htype
    have hsel := h.selectRequestPipe (C := C) hn hv hfifo ops block
    simp only []
    generalize s.selectRequestPipe n v ops block = out at hsel
    exact hsel

/-- One descriptor of a select. -/
theorem selectFd (a : SelectArgs) (fd : Fd) : Selecting C s p i (s.selectFd p i a fd).2 := by
  unfold State.selectFd
  simp only []
  generalize a.want fd = ops
  split
  · exact .refl
  rcases hget : s.getFilp p fd.val with r | ⟨k, n⟩
  · simp only []
    split
    · exact h.selectCancelAll
    · exact h.setSel rfl rfl
  obtain ⟨-, hn⟩ := getFilp_eq_ok hget
  have hcount := h.refs.count_pos hn
  simp only []
  have hstep1 : Selecting C s p i (s.setSel i { s.sel i with filps := update (s.sel i).filps fd (some n) }) :=
    h.setSel rfl rfl
  have hcount1 : 0 < ((s.setSel i { s.sel i with filps := update (s.sel i).filps fd (some n) }).filp n).count := hcount
  generalize s.setSel i { s.sel i with filps := update (s.sel i).filps fd (some n) } = s1 at hstep1 hcount1
  have h1 := hstep1.looks h
  rcases htype : s1.fdType n with _ | type
  · exact hstep1
  simp only []
  split
  · exact hstep1.trans (h1.countFd)
  generalize (s1.filp n).selectOps.union ops = all
  generalize hf : ({ s1.filp n with selectOps := all } : Filp) = f
  have hsame : f.Same (s1.filp n) := by
    rw [← hf]
    exact ⟨⟨rfl, rfl⟩, ⟨rfl, rfl, rfl⟩, rfl, rfl, rfl, rfl, rfl⟩
  have hstep2 : Selecting C s1 p i (s1.setFilp n f) := h1.setFilp hsame
  have hself : (s1.setFilp n f).filp n = f := setFilp_filp_self ..
  have htype2 : (s1.setFilp n f).fdType n = some type := by
    rw [← htype, fdType, hself, hsame.vnode]
    rfl
  have hcount2 : 0 < ((s1.setFilp n f).filp n).count := by
    rw [hself, hsame.count]
    exact hcount1
  generalize s1.setFilp n f = s2 at hstep2 htype2 hcount2
  have hstep3 := (hstep2.looks h1).selectRequest (C := C) hcount2 htype2 all a.block (a.answer fd)
  generalize s2.selectRequest n type all a.block (a.answer fd) = out at hstep3
  obtain ⟨r, s3⟩ := out
  have hstep : Selecting C s p i s3 := (hstep1.trans hstep2).trans hstep3
  have h3 := hstep.looks h
  cases r with
  | error => exact hstep.trans h3.selectCancelAll
  | deferred => exact hstep.trans (h3.setSel rfl rfl)
  | ready ready =>
    simp only []
    split
    · exact hstep.trans (h3.countFd)
    · have htab : Selecting C s3 p i (s3.setSel i ((s3.sel i).ops2tab ready fd)) := h3.setSel rfl rfl
      exact hstep.trans (htab.trans ((htab.looks h3).countFd))

omit h

theorem selectFds (a : SelectArgs) (l : List Fd) : ∀ s : State, s.Looks p i →
    Selecting C s p i (State.selectFds p i a l s).2 := by
  induction l with
  | nil => exact fun s _ => .refl
  | cons fd rest ih =>
    intro s h
    have hfd := h.selectFd (C := C) a fd
    rw [State.selectFds]
    generalize s.selectFd p i a fd = out at hfd
    obtain ⟨r, s1⟩ := out
    rcases r with r | r
    · exact hfd
    · exact hfd.trans (ih s1 (hfd.looks h))

end Looks

theorem Refs.doSelect_steps (h : s.Refs) (hp : s.Idle p) {e : Endpoint} (hend : (s.proc p).endpoint = some e) (a : SelectArgs) :
    CallSteps C s p (s.doSelect p e a) := by
  unfold doSelect
  split
  · exact .refl hp
  rcases hfind : (List.finRange maxSelects).find? fun i => (s.sel i).requestor.isNone with _ | i
  · exact .refl hp
  have hfree : (s.sel i).requestor = none := by simpa using List.find?_some hfind
  simp only []
  generalize hentry : ({ s.sel i with
    endpt := e, want := a.want, ready := fun _ => SelOps.empty, filps := fun _ => none, deferred := false
    nfds := 0, nready := 0 } : SelectEntry) = entry
  have hnew : entry.requestor = none ∧ entry.endpt = e := by
    rw [← hentry]
    exact ⟨hfree, rfl⟩
  have hsteps1 : Steps C s (s.setSel i entry) := .single (.slot i entry hfree hnew.1) (h.of_quiet (SameRefs.setSel s) rfl)
  have howner1 : (s.setSel i entry).owner i = (none, e) := by
    unfold owner
    rw [setSel_sel_self, hnew.1, hnew.2]
  have hproc1 : (s.setSel i entry).proc = s.proc := rfl
  generalize s.setSel i entry = s1 at hsteps1 howner1 hproc1
  have hend1 : (s1.proc p).endpoint = (s.proc p).endpoint := by rw [hproc1]
  have h1 : s1.Looks p i := ⟨hsteps1.refs h, hp.congr (by rw [hproc1]), congrArg Prod.fst howner1⟩
  split
  · exact .done hsteps1 h1.idle hend1
  split
  · exact .done hsteps1 h1.idle hend1
  have hstep2 : Selecting C s1 p i (s1.setSel i { s1.sel i with block := a.block, timer := false }) := h1.setSel rfl rfl
  generalize s1.setSel i { s1.sel i with block := a.block, timer := false } = s2 at hstep2
  have hstep3 := Looks.selectFds (C := C) a ((List.finRange openMax).filter fun fd => fd.val < a.nfds) s2 (hstep2.looks h1)
  generalize selectFds p i a ((List.finRange openMax).filter fun fd => fd.val < a.nfds) s2 = out at hstep3
  obtain ⟨r, s3⟩ := out
  have hstep : Selecting C s1 p i s3 := hstep2.trans hstep3
  have h3 := hstep.looks h1
  have hsteps3 : Steps C s s3 := hsteps1.trans hstep.steps
  have hend3 : (s3.proc p).endpoint = (s.proc p).endpoint := by rw [hstep.proc, hend1]
  rcases r with r | r
  · exact .done hsteps3 h3.idle hend3
  simp only []
  split
  · have hcancel := h3.selectCancelAll (C := C)
    generalize s3.selectCancelAll i = s4 at hcancel
    have h4 := hcancel.looks h3
    have hlast : Selecting C s4 p i (s4.setSel i { s4.sel i with requestor := none }) := h4.setSel h4.free.symm rfl
    exact .of_steps (hsteps3.trans hcancel.steps) (by rw [hcancel.proc, hend3])
      (.done hlast.steps (hlast.looks h4).idle (by rw [hlast.proc]))
  · -- The process waits.
    generalize hentry' : ({ s3.sel i with timer := a.timed, requestor := some p } : SelectEntry) = entry'
    have hnew' : entry'.requestor = some p ∧ entry'.endpt = (s3.sel i).endpt := by
      rw [← hentry']
      exact ⟨rfl, rfl⟩
    have hendpt : (s3.sel i).endpt = e := congrArg Prod.snd (hstep.owner.trans howner1)
    have hproc := suspend_proc (s3.setSel i entry') p .select ⟨a.nfds, .select, 0, 0⟩
    refine .suspended (hsteps3.trans (.single (.waitSelect p i entry' _ h3.idle h3.free hnew'.1 ?_) ?_)) ?_
    · rw [hnew'.2, hendpt, hend3, hend]
    · refine (h3.refs.of_quiet (SameRefs.setSel s3) rfl).suspend ?_
      unfold Waits
      simp [hproc]
    · rw [hproc]
      exact hend3

/-! ## The answers of drivers -/

/-- The answer gives the reference of the driver back. -/
theorem Refs.selectAnswered_steps (h : s.Refs) (hsel : s.selFilp major = some n)
    (hbusy : (s.filp n).selBusy = true) (hv : (s.filp n).vnode = some v) (status : Option SelOps) :
    Steps C s (s.selectAnswered major n status) ∧ ((s.selectAnswered major n status).filp n).vnode = some v ∧
      (0 < ((s.selectAnswered major n status).filp n).count → ((s.selectAnswered major n status).fdRefs n : Int) +
        (s.selectAnswered major n status).busyRefs n + 1 ≤ ((s.selectAnswered major n status).filp n).count) := by
  have hone : 1 ≤ s.busyRefs n := by
    have hle := le_tally (fun o : Option FilpNr => if o = some n ∧ (s.filp n).selBusy = true then 1 else 0) s.selFilp major
    rw [if_pos ⟨hsel, hbusy⟩] at hle
    exact hle
  have hasked : Steps C s { s with selFilp := update s.selFilp major none } := h.steps_selFilp fun m hm => by simp at hm
  unfold selectAnswered
  simp only []
  generalize hf : ({ s.filp n with selBusy := false, selectOps := _ } : Filp) = f
  obtain ⟨hcount, hvnode, hpos, hidle⟩ : f.count = (s.filp n).count ∧ f.vnode = (s.filp n).vnode ∧ f.pos = (s.filp n).pos ∧
      f.selBusy = false := by
    rw [← hf]
    exact ⟨rfl, rfl, rfl, rfl⟩
  have hzero : (State.setFilp { s with selFilp := update s.selFilp major none } n f).busyRefs n = 0 :=
    tally_eq_zero.mpr fun d => if_neg fun hd => by
      rw [setFilp_filp_self, hidle] at hd
      simp at hd
  have hold := h.counted n
  refine ⟨hasked.trans (.single (.quiet (.setFilp fun w hn hw => .inl ⟨hcount ▸ hn, hvnode ▸ hw, hpos⟩))
    ((hasked.refs h).setFilp ?_ (fun _ => ?_) (fun w hn hw hnot => absurd ⟨hcount ▸ hn, hvnode ▸ hw⟩ hnot) (.inl hvnode))),
    ?_, fun hn => ?_⟩
  · rw [hcount]
    exact hold
  · rw [hzero, hcount]
    exact (Int.add_zero _).trans_le hold
  · rw [setFilp_filp_self, hvnode, hv]
  · rw [setFilp_filp_self, hcount] at hn ⊢
    have := h.busy n hn
    rw [hzero]
    show (s.fdRefs n : Int) + 0 + 1 ≤ (s.filp n).count
    omega

theorem Refs.selectReply1_steps (h : s.Refs) {source : Endpoint} {minor : Nat} {status : Option SelOps} {truncated : Bool} :
    Steps C s (s.selectReply1 source minor status truncated) := by
  unfold selectReply1
  rcases hmajor : (s.driverMajor source).bind fun d => (s.selFilp d).map fun n => (d, n) with _ | ⟨major, n⟩
  · exact .refl s
  simp only []
  have hsel : s.selFilp major = some n := by
    obtain ⟨d, -, hd⟩ := Option.bind_eq_some_iff.mp hmajor
    obtain ⟨m, hm, heq⟩ := Option.map_eq_some_iff.mp hd
    obtain ⟨rfl, rfl⟩ := Prod.mk.inj heq
    exact hm
  split
  · have hwhy : s.Reason .selectReply := trivial
    exact h.steps_panic hwhy
  rename_i hbusy
  rw [not_or, not_not, Option.map_eq_some_iff] at hbusy
  obtain ⟨hbusy, v, hv, -⟩ := hbusy
  split
  · exact .refl s
  obtain ⟨hsteps, hv1, hslack⟩ := h.selectAnswered_steps (C := C) hsel (by simpa using hbusy) hv status
  generalize s.selectAnswered major n status = s1 at hsteps hv1 hslack
  have hrefs1 := hsteps.refs h
  generalize hs2 : (if status = some SelOps.empty then s1 else s1.filpStatus n status) = s2
  have hstep2 : Steps C s1 s2 ∧ s1.SameRefs s2 := by
    rw [← hs2]
    split
    · exact ⟨.refl s1, .refl s1⟩
    · have hrun := hrefs1.filpStatus_wakes (D := fun _ => False) n status
      exact ⟨hrefs1.steps_wakes hrun, hrun.sameRefs fun _ hf => hf⟩
  obtain ⟨hsteps2, hsame⟩ := hstep2
  have hrefs2 := hsteps2.refs hrefs1
  have hv2 : (s2.filp n).vnode = some v := (hsame.vnode n).trans hv1
  have hslack2 : 0 < (s2.filp n).count → (s2.fdRefs n : Int) + s2.busyRefs n + 1 ≤ (s2.filp n).count := by
    rw [hsame.fdRefs, hsame.busyRefs, hsame.count]
    exact hslack
  refine (hsteps.trans hsteps2).trans ?_
  split
  · have hless := hrefs2.steps_less (C := C) hv2 (hslack2 (by omega)) truncated
    unfold lessFilp at hless
    simp only [] at hless
    rw [setCount, setFilp_filp_self] at hless
    rwa [if_neg (by simp only []; omega)] at hless
  split
  · have hwhy : s2.Reason .selectReply := trivial
    exact hrefs2.steps_panic hwhy
  obtain ⟨s3, hsteps3, hsame3, -, -, heq⟩ := hrefs2.closeFilp_eq (C := C) hv2 truncated
  rw [heq]
  refine hsteps3.trans ((hsteps3.refs hrefs2).steps_less ((hsame3.vnode n).trans hv2) ?_ truncated)
  rw [hsame3.fdRefs, hsame3.busyRefs, hsame3.count]
  exact hslack2 (by omega)

end Minix.Vfs.State
