/-
  Kernel/Signals.lean --- the handshake with PM about signals.

  `cause_sig` adds a signal to `p_pending` and sets `SIGNALED` and `SIG_PENDING`.  PM
  fetches the pending signals of one process with SYS_GETKSIG, which clears `SIGNALED`,
  and finishes with SYS_ENDKSIG, which clears `SIG_PENDING` unless there are new signals.

  Nothing else drops a signal or lets the process go on, apart from its exit: every other
  operation only adds signals (`SigKept`).  A signal for a kernel task is never fetched, as
  `do_getksig` looks at user processes only, and a signal for PM is a panic.
-/
import Mathlib.Data.Fintype.Card
import Minix.Kernel.DeliverySlot
import Minix.Kernel.PrivilegeRun

set_option autoImplicit false

namespace Minix.Kernel

open Minix.Foundation Relation State

variable {s s'' : State} {rp : Slot} {f : BitVec 16} {op : Op}

namespace State

/-! ## What GETKSIG answers -/

/-- The process whose signals `do_getksig` hands out. -/
def ksigNext (s : State) : Option Slot :=
  (List.finRange nrSlots).find? fun rp => decide (4 ≤ rp.val) && s.rtsIsset rp rtsSignaled

/-- `SIG_ENDPT` and `SIG_MAP` of the reply to SYS_GETKSIG; `none` is the endpoint NONE. -/
def ksigReply (s : State) : Option (Int × BitVec 32) :=
  s.ksigNext.map fun rp => ((s.proc rp).pEndpoint, (s.proc rp).pPending)

theorem doGetksig_of_none (h : s.ksigNext = none) : s.doGetksig = s := by
  unfold ksigNext at h
  unfold doGetksig
  rw [h]

theorem ksigNext_signaled (h : s.ksigNext = some rp) :
    4 ≤ rp.val ∧ s.rtsIsset rp rtsSignaled = true := by
  have hfound := List.find?_some h
  simpa using hfound

/-- A user process with signals is found, if none before it has any. -/
theorem ksigNext_le (huser : 4 ≤ rp.val)
    (hsig : s.rtsIsset rp rtsSignaled = true) : ∃ rq, s.ksigNext = some rq ∧ rq.val ≤ rp.val := by
  have hfound : (s.ksigNext).isSome = true := by
    rw [ksigNext, List.find?_isSome]
    exact ⟨rp, List.mem_finRange rp, by simp [huser, hsig]⟩
  obtain ⟨rq, hrq⟩ := Option.isSome_iff_exists.mp hfound
  refine ⟨rq, hrq, ?_⟩
  by_contra hlt
  obtain ⟨_, before, after, hlist, hbefore⟩ := List.find?_eq_some_iff_append.mp hrq
  have hsorted : (List.finRange nrSlots).Pairwise (· < ·) := List.pairwise_lt_finRange nrSlots
  have hmem : rp ∈ before ++ rq :: after := hlist ▸ List.mem_finRange rp
  rw [hlist, List.pairwise_append, List.pairwise_cons] at hsorted
  rcases List.mem_append.mp hmem with hin | hin
  · have hnot := hbefore rp hin
    simp [huser, hsig] at hnot
  · rcases List.mem_cons.mp hin with heq | hin
    · exact hlt (heq ▸ Nat.le_refl _)
    · have := hsorted.2.1.1 rp hin
      exact hlt (Nat.le_of_lt this)

/-! ## The invariant -/

/-- A process has been signalled iff it has pending signals, and then it waits for PM. -/
structure SignalOk (s : State) (i : Slot) : Prop where
  pending : (s.proc i).pPending ≠ 0#32 ↔ s.rtsIsset i rtsSignaled = true
  waits : s.rtsIsset i rtsSignaled = true → s.rtsIsset i rtsSigPending = true

def SignalsOk (s : State) : Prop := ∀ i, s.Alive i → s.SignalOk i

end State

/-- The flags that the handshake uses, and that of a free slot. -/
def rtsSignals : BitVec 16 := rtsSignaled ||| rtsSigPending ||| rtsSlotFree

/-- Nothing happened to signals. -/
structure SameSignals (s s' : State) : Prop where
  endpoint : ∀ i, (s'.proc i).pEndpoint = (s.proc i).pEndpoint
  pending : ∀ i, (s'.proc i).pPending = (s.proc i).pPending
  flags : ∀ i f, isSet rtsSignals f = true → s'.rtsIsset i f = s.rtsIsset i f

namespace SameSignals

variable {s s' : State}

theorem trans (h : SameSignals s s') (h' : SameSignals s' s'') : SameSignals s s'' :=
  ⟨fun i => (h'.endpoint i).trans (h.endpoint i), fun i => (h'.pending i).trans (h.pending i),
    fun i f hf => (h'.flags i f hf).trans (h.flags i f hf)⟩

theorem of_unmessaged (h : s'.unmessaged = s.unmessaged) : SameSignals s s' where
  endpoint i := frame_proc Proc.pEndpoint h i rfl
  pending i := frame_proc Proc.pPending h i rfl
  flags i f _ := frame_congr (fun t => t.rtsIsset i f) h rfl

theorem quiet (h : s'.erase = s.erase) : SameSignals s s' := of_unmessaged (unmessaged_of_erase h)

theorem unprivileged (h : s'.unprivileged = s.unprivileged) : SameSignals s s' where
  endpoint i := frame_proc Proc.pEndpoint h i rfl
  pending i := frame_proc Proc.pPending h i rfl
  flags i f _ := frame_congr (fun t => t.rtsIsset i f) h rfl

theorem house (h : Housekeeping s s') : SameSignals s s' where
  endpoint i := frame_congr (fun t => (t.proc i).pEndpoint) h.core rfl
  pending i := frame_congr (fun t => (t.proc i).pPending) h.core rfl
  flags i f hf := h.flags i f (disjoint_of_isSet hf (by decide))

theorem of_unsched (h : s'.unsched = s.unsched)
    (hflags : ∀ i f, isSet rtsSignals f = true → s'.rtsIsset i f = s.rtsIsset i f) :
    SameSignals s s' where
  endpoint i := frame_proc Proc.pEndpoint h i rfl
  pending i := frame_proc Proc.pPending h i rfl
  flags := hflags

section

variable (s : State)

theorem rtsSet {rp : Slot} (hd : rtsSignals &&& f = 0#16) : SameSignals s (s.rtsSet rp f) :=
  of_unsched (s.unsched_rtsSet rp f) fun i _ hg =>
    s.rtsIsset_rtsSet_of_disjoint rp i (disjoint_of_isSet hg hd)

theorem rtsUnset {rp : Slot} (hd : rtsSignals &&& f = 0#16) : SameSignals s (s.rtsUnset rp f) :=
  of_unsched (s.unsched_rtsUnset rp f) fun i _ hg =>
    s.rtsIsset_rtsUnset_of_disjoint rp i (disjoint_of_isSet hg hd)
      (disjoint_of_isSet hg (by decide))

theorem modProc {rp : Slot} {f : Proc → Proc}
    (hend : (f (s.proc rp)).pEndpoint = (s.proc rp).pEndpoint)
    (hpend : (f (s.proc rp)).pPending = (s.proc rp).pPending)
    (hflags : ∀ g, isSet rtsSignals g = true →
      isSet (f (s.proc rp)).pRtsFlags g = isSet (s.proc rp).pRtsFlags g) :
    SameSignals s (s.modProc rp f) :=
  ⟨s.modProc_congr rp Proc.pEndpoint hend, s.modProc_congr rp Proc.pPending hpend,
    fun i g hg => s.modProc_congr rp (fun p => isSet p.pRtsFlags g) (hflags g hg) i⟩

end

end SameSignals

/-- The process in slot `i` lives on, with all its signals, and waits for PM if it did. -/
structure SigKept (i : Slot) (s s' : State) : Prop where
  alive : s.Alive i → s'.Alive i
  endpoint : (s'.proc i).pEndpoint = (s.proc i).pEndpoint
  pending : ∀ m, isSet (s.proc i).pPending m = true → isSet (s'.proc i).pPending m = true
  signaled : s.rtsIsset i rtsSignaled = true → s'.rtsIsset i rtsSignaled = true
  sigPending : s.rtsIsset i rtsSigPending = true → s'.rtsIsset i rtsSigPending = true

namespace SigKept

variable {i : Slot} {s s' : State}

theorem refl {i : Slot} {s : State} : SigKept i s s := ⟨id, rfl, fun _ => id, id, id⟩

theorem trans (h : SigKept i s s') (h' : SigKept i s' s'') : SigKept i s s'' :=
  ⟨fun hi => h'.alive (h.alive hi), h'.endpoint.trans h.endpoint,
    fun m hm => h'.pending m (h.pending m hm), fun hs => h'.signaled (h.signaled hs),
    fun hs => h'.sigPending (h.sigPending hs)⟩

end SigKept

/-- Nothing happened to the signals of slot `i`. -/
structure SameAt (i : Slot) (s s' : State) : Prop where
  endpoint : (s'.proc i).pEndpoint = (s.proc i).pEndpoint
  pending : (s'.proc i).pPending = (s.proc i).pPending
  flags : ∀ f, isSet rtsSignals f = true → s'.rtsIsset i f = s.rtsIsset i f

section

variable {i : Slot} {s s' : State}

theorem SameAt.kept (h : SameAt i s s') : SigKept i s s' where
  alive hi := (h.flags _ (by decide)).trans hi
  endpoint := h.endpoint
  pending m hm := by
    rw [h.pending]
    exact hm
  signaled hs := (h.flags _ (by decide)).trans hs
  sigPending hs := (h.flags _ (by decide)).trans hs

theorem SameAt.ok (h : SameAt i s s') (hok : s.SignalsOk) (hi : s'.Alive i) : s'.SignalOk i := by
  obtain ⟨hpending, hwaits⟩ := hok i ((h.flags _ (by decide)).symm.trans hi)
  constructor
  · rw [h.pending, h.flags _ (by decide)]
    exact hpending
  · rw [h.flags _ (by decide), h.flags _ (by decide)]
    exact hwaits

theorem SameSignals.at (h : SameSignals s s') {i : Slot} : SameAt i s s' :=
  ⟨h.endpoint i, h.pending i, h.flags i⟩

theorem SameSignals.signalsOk (h : SameSignals s s') (hok : s.SignalsOk) : s'.SignalsOk :=
  fun i hi => (h.at).ok hok hi

/-- A process without signals. -/
theorem State.SignalOk.of_zero (hpend : (s.proc i).pPending = 0#32)
    (hsig : s.rtsIsset i rtsSignaled = false) : s.SignalOk i := by
  refine ⟨?_, fun hs => nomatch hsig.symm.trans hs⟩
  rw [hpend, hsig]
  simp

end

/-- The processes keep their signals, and the invariant is kept. -/
structure SigStep (s s' : State) : Prop where
  kept : ∀ i, s.Alive i → SigKept i s s'
  ok : s.SignalsOk → s'.SignalsOk

namespace SigStep

variable {s s' : State}

theorem same (h : SameSignals s s') : SigStep s s' := ⟨fun i _ => (h.at).kept, h.signalsOk⟩

theorem refl {s : State} : SigStep s s := same ⟨fun _ => rfl, fun _ => rfl, fun _ _ _ => rfl⟩

theorem trans (h : SigStep s s') (h' : SigStep s' s'') : SigStep s s'' :=
  ⟨fun i hi => (h.kept i hi).trans (h'.kept i ((h.kept i hi).alive hi)),
    fun hok => h'.ok (h.ok hok)⟩

/-- A signal for a process that has been signalled. -/
theorem pend {s : State} {rp : Slot} {sigs : BitVec 32} (h : s.rtsIsset rp rtsSignaled = true) :
    SigStep s (s.modProc rp fun p => { p with pPending := p.pPending ||| sigs }) := by
  have hflags : ∀ i f, (s.modProc rp fun p =>
      { p with pPending := p.pPending ||| sigs }).rtsIsset i f = s.rtsIsset i f := fun i f =>
    s.modProc_congr rp (fun p => isSet p.pRtsFlags f) rfl i
  refine ⟨fun i _ => ⟨(hflags i _).trans, s.modProc_congr rp Proc.pEndpoint rfl i, fun m hm => ?_,
    (hflags i _).trans, (hflags i _).trans⟩, fun hok i hi => ?_⟩
  · rw [modProc_proc]
    split_ifs with hi
    · rw [hi] at hm
      exact isSet_or_of_isSet sigs hm
    · exact hm
  · have halive : s.Alive i := (hflags i _).symm.trans hi
    obtain ⟨hpending, hwaits⟩ := hok i halive
    refine ⟨?_, fun hs => (hflags i _).trans (hwaits ((hflags i _).symm.trans hs))⟩
    rw [hflags, modProc_proc]
    split_ifs with hir
    · rw [hir] at hpending ⊢
      rw [BitVec.or_comm]
      exact ⟨fun _ => h, fun _ => or_ne_zero (hpending.mpr h)⟩
    · exact hpending

/-- The first signal for a process. -/
theorem signal {s : State} {rp : Slot} {sigs : BitVec 32} (hsigs : sigs ≠ 0#32) :
    SigStep s ((s.modProc rp fun p => { p with pPending := p.pPending ||| sigs }).rtsSet rp
      (rtsSignaled ||| rtsSigPending)) := by
  set t := s.modProc rp fun p => { p with pPending := p.pPending ||| sigs } with ht
  set u := t.rtsSet rp (rtsSignaled ||| rtsSigPending) with hu
  have hframe : u.unsched = t.unsched := unsched_rtsSet _ _ _
  have hpending : ∀ i, (u.proc i).pPending =
      if i = rp then (s.proc rp).pPending ||| sigs else (s.proc i).pPending := by
    intro i
    rw [frame_proc Proc.pPending hframe i rfl, ht,
      modProc_proc]
    split <;> rfl
  have hflags : ∀ i, (u.proc i).pRtsFlags = if i = rp then
      (s.proc rp).pRtsFlags ||| (rtsSignaled ||| rtsSigPending) else (s.proc i).pRtsFlags := by
    intro i
    rw [hu, flags_rtsSet]
    have hsame : ∀ j, (t.proc j).pRtsFlags = (s.proc j).pRtsFlags :=
      s.modProc_congr rp Proc.pRtsFlags rfl
    rw [hsame, hsame]
  have hendpoint : ∀ i, (u.proc i).pEndpoint = (s.proc i).pEndpoint := fun i =>
    (frame_proc Proc.pEndpoint hframe i rfl).trans
      (s.modProc_congr rp Proc.pEndpoint rfl i)
  have hset : ∀ g, isSet (rtsSignaled ||| rtsSigPending) g = true →
      u.rtsIsset rp g = true := by
    intro g hg
    rw [rtsIsset, hflags, if_pos rfl, BitVec.or_comm]
    exact isSet_or_of_isSet _ hg
  have hmono : ∀ i g, s.rtsIsset i g = true → u.rtsIsset i g = true := by
    intro i g hg
    rw [rtsIsset, hflags]
    split_ifs with hi
    · rw [hi] at hg
      exact isSet_or_of_isSet _ hg
    · exact hg
  have halive : ∀ i, u.rtsIsset i rtsSlotFree = s.rtsIsset i rtsSlotFree := by
    intro i
    rw [rtsIsset, hflags]
    split_ifs with hi
    · rw [hi, isSet_or_of_disjoint (by decide)]
      rfl
    · rfl
  refine ⟨fun i _ => ⟨fun hi => (halive i).trans hi, hendpoint i, fun m hm => ?_, hmono i _,
    hmono i _⟩, fun hok i hi => ?_⟩
  · rw [hpending]
    split_ifs with hi
    · rw [hi] at hm
      exact isSet_or_of_isSet sigs hm
    · exact hm
  · by_cases hir : i = rp
    · rw [hir]
      refine ⟨⟨fun _ => hset _ (by decide), fun _ => ?_⟩, fun _ => hset _ (by decide)⟩
      rw [hpending, if_pos rfl]
      exact or_ne_zero hsigs
    · refine SameAt.ok ⟨hendpoint i, ?_, fun g _ => ?_⟩ hok hi
      · rw [hpending, if_neg hir]
      · rw [rtsIsset, hflags, if_neg hir, rtsIsset]

end SigStep

/-! ## Operations -/

/-- Anything may happen, but for the handshake. -/
def silentMode : Mode := ⟨True, True, True, True, True, False⟩

namespace SigStep

variable {s s' : State}

theorem of_write (h : Write silentMode s s') : SigStep s s' := by
  cases h with
  | other h => exact same (.of_unmessaged h)
  | set rp _ hd _ => exact same (.rtsSet s (disjoint_of_isSet (by decide) hd))
  | unset rp hd => exact same (.rtsUnset s (disjoint_of_isSet (by decide) hd))
  | mask rp hd _ => exact same (.modProc s rfl rfl fun _ hg =>
      isSet_clearBits_of_disjoint (disjoint_of_isSet hg (disjoint_of_isSet (by decide) hd)))
  | pend rp sigs h => exact pend h
  | signal rp hsigs _ => exact signal hsigs
  | endksig rp hshake | getksig rp hshake => exact absurd hshake id

/-- Steps and housekeeping add to what has happened to signals since `s₀`. -/
theorem opInv {s₀ : State} : OpInv silentMode (SigStep s₀) where
  step h hstep := by
    replace hstep := hstep.writes
    induction hstep with
    | refl => exact h
    | tail _ hw ih => exact ih.trans (of_write hw)
  house h hhouse := h.trans (same (.house hhouse))
  sound := .inl ⟨trivial, trivial⟩

theorem doPrivctl {s : State} {endpt : Int} {request : PrivRequest} :
    SigStep s (s.doPrivctl endpt request).2 := by
  obtain ⟨t, hlights, hframe⟩ := s.doPrivctl_frame (μ := silentMode) trivial endpt request
  exact (opInv.lights refl hlights).trans (same (.unprivileged hframe))

/-- The child of a fork has no signals, and the other processes keep theirs. -/
theorem doFork {s : State} {parentE slot : Int} {env : ForkEnv} :
    SigStep s (s.doFork parentE slot env).2 := by
  rcases doFork_cases (s := s) env parentE slot with heq | heq | ⟨rpp, rpc, hf⟩
  · rw [heq]
    exact refl
  · rw [heq]
    exact same (.quiet rfl)
  have hfree : s.rtsIsset rpc rtsSlotFree = true := by
    have hempty : (s.proc rpc).pRtsFlags = rtsSlotFree := by simpa [isemptyp] using hf.free
    rw [rtsIsset, hempty]
    decide
  have hother : ∀ i, i ≠ rpc → SameAt i s (s.doFork parentE slot env).2 := fun i hi =>
    ⟨fork_others env hf Proc.pEndpoint (fun _ _ => rfl) hi,
      fork_others env hf Proc.pPending (fun _ _ => rfl) hi,
      fun f _ => fork_others env hf (fun p => isSet p.pRtsFlags f) (fun _ _ => rfl) hi⟩
  refine ⟨fun i hi => (hother i ?_).kept, fun hok i hi => ?_⟩
  · rintro rfl
    cases hfree.symm.trans hi
  · by_cases hic : i = rpc
    · rw [hic]
      obtain ⟨hpend, hsig, _⟩ := fork_signals env hf
      exact .of_zero hpend hsig
    · exact (hother i hic).ok hok hi

end SigStep

/-! ## Exit, GETKSIG and ENDKSIG -/

namespace State

variable {s : State} {i : Slot}

/-- The signals of a process go with it, and those of the others stay. -/
theorem clearProc_signals (s : State) {rc : Slot} :
    (∀ i, i ≠ rc → s.Alive i → SigKept i s (s.clearProc rc)) ∧
      (s.SignalsOk → (s.clearProc rc).SignalsOk) := by
  have hnone : ∀ t, SigStep s t → (∀ i, i ≠ rc → s.Alive i → SigKept i s t) ∧
      (s.SignalsOk → t.SignalsOk) := fun t ht => ⟨fun i _ hi => ht.kept i hi, ht.ok⟩
  unfold clearProc
  dsimp only
  split
  · exact hnone s .refl
  have hclear : SigStep s (s.clearEndpoint rc) :=
    SigStep.opInv.steps .refl
      (s.steps_clearEndpoint (μ := silentMode) trivial rc fun _ => .inl trivial)
  generalize s.clearEndpoint rc = s1 at hclear
  split
  · exact hnone s1 hclear
  have htimed : SigStep s1 (((s1.resetTimer (.alarm (s1.proc rc).pPriv)).resetTimer
      (.deadline rc)).modTimer (.deadline rc) fun t => { t with tmrExpTime := 0 }) :=
    .same (.house (.of_untimed (by simp)))
  generalize ((s1.resetTimer (.alarm (s1.proc rc).pPriv)).resetTimer
    (.deadline rc)).modTimer (.deadline rc) (fun t => { t with tmrExpTime := 0 }) = s3 at htimed
  have hs3 := hclear.trans htimed
  have hframe := s3.unsched_rtsSetflags rc rtsSlotFree
  have hflags := s3.flags_rtsSetflags rc rtsSlotFree
  have hmisc : SameSignals (s3.rtsSetflags rc rtsSlotFree)
      ((s3.rtsSetflags rc rtsSlotFree).modProc rc fun p =>
        p.setMisc (clearBits p.pMiscFlags mfFpuInitialized)) :=
    .modProc _ rfl rfl fun _ _ => rfl
  generalize s3.rtsSetflags rc rtsSlotFree = s4 at hframe hflags hmisc
  have hfree : SameSignals s4
      (if isSet ((s4.modProc rc fun p =>
          p.setMisc (clearBits p.pMiscFlags mfFpuInitialized)).privOf rc).sFlags sysProc = true then
        (s4.modProc rc fun p => p.setMisc (clearBits p.pMiscFlags mfFpuInitialized)).modPriv
          ((s4.modProc rc fun p =>
            p.setMisc (clearBits p.pMiscFlags mfFpuInitialized)).proc rc).pPriv
          fun sp => { sp with sProcNr := endptNone }
      else s4.modProc rc fun p => p.setMisc (clearBits p.pMiscFlags mfFpuInitialized)) := by
    split
    · exact hmisc.trans (.unprivileged rfl)
    · exact hmisc
  have hother : ∀ i, i ≠ rc → SameAt i s3 s4 := fun i hi =>
    ⟨frame_proc Proc.pEndpoint hframe i rfl, frame_proc Proc.pPending hframe i rfl, fun f _ => by
      rw [rtsIsset, hflags, if_neg hi, rtsIsset]⟩
  refine ⟨fun i hi halive => (hs3.kept i halive).trans ((hother i hi).kept.trans (hfree.at).kept),
    fun hok => hfree.signalsOk fun i hi => (hother i ?_).ok (hs3.ok hok) hi⟩
  rintro rfl
  rw [Alive, rtsIsset, hflags, if_pos rfl] at hi
  cases hi

theorem doExit_signals (s : State) {endpt : Int} :
    (∀ i, s.exitTarget endpt ≠ some i → s.Alive i → SigKept i s (s.doExit endpt).2) ∧
      (s.SignalsOk → (s.doExit endpt).2.SignalsOk) := by
  refine doExit_rule (P := fun t => (∀ i, s.exitTarget endpt ≠ some i → s.Alive i → SigKept i s t) ∧
    (s.SignalsOk → t.SignalsOk)) ⟨fun i _ _ => .refl, id⟩ fun rc hrc => ?_
  obtain ⟨hkept, hok⟩ := s.clearProc_signals
  refine ⟨fun i hi => hkept i ?_, hok⟩
  rintro rfl
  exact hi hrc

/-- What GETKSIG does to the process it finds, and to the others. -/
theorem doGetksig_entry (h : s.ksigNext = some i) :
    (∀ j, j ≠ i → SameAt j s s.doGetksig) ∧ (s.doGetksig.proc i).pPending = 0#32 ∧
      (∀ f, isSet (rtsSigPending ||| rtsSlotFree) f = true →
        s.doGetksig.rtsIsset i f = s.rtsIsset i f) ∧
      s.doGetksig.rtsIsset i rtsSignaled = false := by
  unfold ksigNext at h
  rw [doGetksig, h]
  set t := s.modProc i fun p => { p with pPending := 0 } with ht
  have hframe := t.unsched_rtsUnset i rtsSignaled
  have hsame : ∀ j f, t.rtsIsset j f = s.rtsIsset j f := fun j f =>
    s.modProc_congr i (fun p => isSet p.pRtsFlags f) rfl j
  refine ⟨fun j hj => ⟨?_, ?_, fun f hf => ?_⟩, ?_, fun f hf => ?_,
    t.rtsIsset_rtsUnset_self i (by decide)⟩
  · exact (frame_proc Proc.pEndpoint hframe j rfl).trans (s.modProc_congr i Proc.pEndpoint rfl j)
  · rw [frame_proc Proc.pPending hframe _ rfl, ht, modProc_proc_of_ne _ _ _ hj]
  · exact (t.rtsIsset_rtsUnset_of_ne i j hj (disjoint_of_isSet hf (by decide))).trans (hsame j f)
  · rw [frame_proc Proc.pPending hframe _ rfl, ht, modProc_proc_self]
    rfl
  · exact (t.rtsIsset_rtsUnset_of_disjoint i i (disjoint_of_isSet hf (by decide))
      (disjoint_of_isSet hf (by decide))).trans (hsame i f)

theorem doGetksig_signals {s : State} (hok : s.SignalsOk) : s.doGetksig.SignalsOk := by
  rcases hnext : s.ksigNext with _ | rp
  · rw [doGetksig_of_none hnext]
    exact hok
  obtain ⟨hother, hzero, _, hclear⟩ := doGetksig_entry hnext
  intro i hi
  by_cases hir : i = rp
  · rw [hir]
    exact .of_zero hzero hclear
  · exact (hother i hir).ok hok hi

/-- ENDKSIG lets a process go on only if it has no new signals. -/
theorem doEndksig_signals (s : State) {endpt : Int} :
    (∀ i, ¬ (s.isokendpt endpt = some i ∧ s.rtsIsset i rtsSignaled = false) →
      SigKept i s (s.doEndksig endpt).2) ∧
      (s.SignalsOk → (s.doEndksig endpt).2.SignalsOk) := by
  unfold doEndksig
  split
  · exact ⟨fun i _ => .refl, id⟩
  rename_i rp hrp
  split
  · exact ⟨fun i _ => .refl, id⟩
  split_ifs with hnone
  · have hnone : s.rtsIsset rp rtsSignaled = false := by simpa using hnone
    have hframe := s.unsched_rtsUnset rp rtsSigPending
    have hother : ∀ i, i ≠ rp → SameAt i s (s.rtsUnset rp rtsSigPending) := fun i hi =>
      ⟨frame_proc Proc.pEndpoint hframe i rfl, frame_proc Proc.pPending hframe i rfl, fun f hf =>
        s.rtsIsset_rtsUnset_of_ne rp i hi (disjoint_of_isSet hf (by decide))⟩
    refine ⟨fun i hi => (hother i ?_).kept, fun hok i hi => ?_⟩
    · rintro rfl
      exact hi ⟨hrp, hnone⟩
    by_cases hir : i = rp
    · rw [hir] at hi ⊢
      rw [Alive, s.rtsIsset_rtsUnset_of_disjoint rp rp (by decide) (by decide)] at hi
      refine .of_zero ?_ ((s.rtsIsset_rtsUnset_of_disjoint rp rp (by decide) (by decide)).trans hnone)
      rw [frame_proc Proc.pPending hframe _ rfl]
      by_contra hpend
      cases hnone.symm.trans ((hok rp hi).pending.mp hpend)
    · exact (hother i hir).ok hok hi
  · exact ⟨fun i _ => .refl, id⟩

end State

/-! ## Runs -/

/-- A run of everything that the kernel does. -/
def SignalRun (s : State) : Op → Prop
  | .clockTask | .request _ (.fork _ _ _) | .request _ (.exit _) | .request _ (.privctl _ _) => True
  | op => op.Regular .any s

/-- The operation passes signal `sig` to `cause_sig` for process `i`. -/
def Raises (s : State) (i : Slot) (sig : Nat) : Op → Prop
  | .signal rp n => rp = i ∧ n = sig
  | .request _ (.kill endpt n) => s.isokendpt endpt = some i ∧ n = sig ∧ n < 26
  | _ => False

/-- The operation is a GETKSIG that answers with the signals of process `i`. -/
def Fetches (s : State) (i : Slot) : Op → Prop
  | .request _ .getksig => s.ksigNext = some i
  | _ => False

/-- The operation is an ENDKSIG for process `i` that finds no new signal. -/
def Finishes (s : State) (i : Slot) : Op → Prop
  | .request _ (.endksig endpt) => s.isokendpt endpt = some i ∧ s.rtsIsset i rtsSignaled = false
  | _ => False

/-- The operation is the exit of process `i`. -/
def Exits (s : State) (i : Slot) : Op → Prop
  | .request caller (.exit endpt) => ({ s with whoP := caller } : State).exitTarget endpt = some i
  | _ => False

theorem SignalRun.kernelRun (h : SignalRun s op) : KernelRun s op := by
  cases op with
  | clockTask => trivial
  | request caller call => trivial
  | _ => exact Op.Regular.kernelRun (μ := .any) h

/-- What one operation does to the signals of the processes. -/
structure OpSignals (s : State) (op : Op) : Prop where
  ok : s.SignalsOk → (op.run s).SignalsOk
  kept : ∀ i, s.Alive i → ¬ Fetches s i op → ¬ Finishes s i op → ¬ Exits s i op →
    SigKept i s (op.run s)
  fetched : ∀ i, s.Alive i → Fetches s i op → (op.run s).Alive i ∧
    (op.run s).rtsIsset i rtsSigPending = s.rtsIsset i rtsSigPending

theorem SigStep.opSignals (h : SigStep s (op.run s))
    (hop : ∀ i, ¬ Fetches s i op) : OpSignals s op :=
  ⟨h.ok, fun i hi _ _ _ => h.kept i hi, fun i _ hf => absurd hf (hop i)⟩

theorem Op.Regular.opSignals (hreg : op.Regular silentMode s)
    (hready : ReadyInv s) (hop : ∀ i, ¬ Fetches s i op) : OpSignals s op :=
  (SigStep.opInv.op .refl hready hreg).opSignals hop

theorem SignalRun.opSignals (hop : SignalRun s op) (hready : ReadyInv s) : OpSignals s op := by
  cases op with
  | clockTask => exact (SigStep.opInv.clockTask trivial .refl).opSignals fun _ => id
  | request caller call =>
    have hcaller : SigStep s { s with whoP := caller } := .same (.quiet rfl)
    cases call with
    | fork parentE slot env => exact (hcaller.trans .doFork).opSignals fun _ => id
    | privctl endpt request => exact (hcaller.trans .doPrivctl).opSignals fun _ => id
    | exit endpt =>
      obtain ⟨hkept, hok⟩ := ({ s with whoP := caller } : State).doExit_signals
      exact ⟨fun h => hok (hcaller.ok h), fun i hi _ _ hne =>
        (hcaller.kept i hi).trans (hkept i hne hi), fun _ _ hf => hf.elim⟩
    | getksig =>
      refine ⟨fun h => doGetksig_signals (hcaller.ok h), fun i hi hf _ _ => ?_,
        fun i hi hf => ?_⟩
      · rcases hnext : ({ s with whoP := caller } : State).ksigNext with _ | rp
        · simp only [Op.run, KernelCall.run, doGetksig_of_none hnext]
          exact hcaller.kept i hi
        · refine (hcaller.kept i hi).trans ((doGetksig_entry hnext).1 i ?_).kept
          rintro rfl
          exact hf hnext
      · have hnext : ({ s with whoP := caller } : State).ksigNext = some i := hf
        have hrest := (doGetksig_entry hnext).2.2.1
        exact ⟨(hrest _ (by decide)).trans hi, hrest _ (by decide)⟩
    | endksig endpt =>
      obtain ⟨hkept, hok⟩ := ({ s with whoP := caller } : State).doEndksig_signals
      exact ⟨fun h => hok (hcaller.ok h), fun i hi _ hne _ =>
        (hcaller.kept i hi).trans (hkept i hne), fun _ _ hf => hf.elim⟩
    | _ => exact Op.Regular.opSignals hop hready fun _ => id
  | _ => exact Op.Regular.opSignals hop hready fun _ => id

/-! ## Signals are not lost -/

namespace State

/-- Signal `sig` of the process in slot `i`, with endpoint `e`, has not been fetched. -/
structure Unfetched (s : State) (i : Slot) (e : Int) (sig : Nat) : Prop where
  alive : s.Alive i
  endpoint : (s.proc i).pEndpoint = e
  pending : isSet (s.proc i).pPending (sigbit sig) = true
  signaled : s.rtsIsset i rtsSignaled = true
  sigPending : s.rtsIsset i rtsSigPending = true

variable {s s' : State} {i : Slot} {e : Int} {sig : Nat}

theorem Unfetched.kept (h : s.Unfetched i e sig) (hkept : SigKept i s s') : s'.Unfetched i e sig :=
  ⟨hkept.alive h.alive, hkept.endpoint.trans h.endpoint, hkept.pending _ h.pending,
    hkept.signaled h.signaled, hkept.sigPending h.sigPending⟩

theorem sigbit_ne_zero (hsig : sig < 32) : sigbit sig ≠ 0#32 := by
  intro hzero
  have hbit := congrArg (fun x : BitVec 32 => x.getLsbD sig) hzero
  simp [sigbit, hsig] at hbit

/-- `cause_sig` leaves the signal pending, whether it is the first one or not. -/
theorem causeSig_unfetched (hok : s.SignalsOk) (halive : s.Alive i) (hpm : i ≠ pmSlot)
    (hsig : sig < 32) : (s.causeSig i sig).Unfetched i (s.proc i).pEndpoint sig := by
  obtain ⟨hpending, hwaits⟩ := hok i halive
  have hbit := sigbit_ne_zero hsig
  unfold causeSig
  rw [if_neg hpm]
  split_ifs with hset
  · have hsignaled := hpending.mp (ne_zero_of_isSet hbit hset)
    exact ⟨halive, rfl, hset, hsignaled, hwaits hsignaled⟩
  · dsimp only
    set t := s.modProc i fun p => { p with pPending := p.pPending ||| sigbit sig } with ht
    have hflags : ∀ f, t.rtsIsset i f = s.rtsIsset i f := fun f =>
      s.modProc_congr i (fun p => isSet p.pRtsFlags f) rfl i
    have hmember : isSet (t.proc i).pPending (sigbit sig) = true := by
      rw [ht, modProc_proc_self]
      exact isSet_or_self _ _
    have hendpoint : (t.proc i).pEndpoint = (s.proc i).pEndpoint :=
      s.modProc_congr i Proc.pEndpoint rfl i
    split_ifs with hsignaled
    · refine ⟨(hflags _).trans halive, hendpoint, hmember, hsignaled, ?_⟩
      exact (hflags _).trans (hwaits ((hflags _).symm.trans hsignaled))
    · -- the first signal, and PM is notified
      have hflagsSet := t.flags_rtsSet i (rtsSignaled ||| rtsSigPending) i
      rw [if_pos rfl] at hflagsSet
      have hframe := t.unsched_rtsSet i (rtsSignaled ||| rtsSigPending)
      have hfirst : (t.rtsSet i (rtsSignaled ||| rtsSigPending)).Unfetched i (s.proc i).pEndpoint
          sig := by
        refine ⟨?_, ?_, ?_, ?_, ?_⟩
        · rw [Alive, t.rtsIsset_rtsSet_of_disjoint i i (by decide)]
          exact (hflags _).trans halive
        · exact (frame_proc Proc.pEndpoint hframe i rfl).trans hendpoint
        · rw [frame_proc Proc.pPending hframe i rfl]
          exact hmember
        · rw [rtsIsset, hflagsSet, BitVec.or_comm]
          exact isSet_or_of_isSet _ (by decide)
        · rw [rtsIsset, hflagsSet, BitVec.or_comm]
          exact isSet_or_of_isSet _ (by decide)
      have hnotify := SigStep.opInv.lights .refl
        (lights_sendSig (μ := silentMode) (t.rtsSet i (rtsSignaled ||| rtsSigPending)) pmSlot sigksig).lights
      exact hfirst.kept (hnotify.kept i hfirst.alive)

/-- After an operation that signals a process, the signal is pending. -/
theorem unfetched_of_raises (hok : s.SignalsOk) (hraise : Raises s i sig op)
    (halive : s.Alive i) (huser : 4 ≤ i.val) (hpm : i ≠ pmSlot) (hsig : sig < 32) :
    (op.run s).Unfetched i (s.proc i).pEndpoint sig := by
  cases op with
  | signal rp n =>
    obtain ⟨rfl, rfl⟩ := hraise
    exact causeSig_unfetched hok halive hpm hsig
  | request caller call =>
    cases call with
    | kill endpt n =>
      obtain ⟨hrp, rfl, hlt⟩ := hraise
      have hcaller : SameSignals s { s with whoP := caller } := .quiet rfl
      have hcause : (({ s with whoP := caller } : State).causeSig i n).Unfetched i
          (s.proc i).pEndpoint n :=
        causeSig_unfetched (hcaller.signalsOk hok) halive hpm hsig
      have hrp' : ({ s with whoP := caller } : State).isokendpt endpt = some i := hrp
      have hkern : iskerneln (procNr i) = false := by
        have hpos : ¬ procNr i < 0 := by
          unfold procNr
          omega
        simp [iskerneln, hpos]
      simp only [Op.run, KernelCall.run, doKill, hrp', hkern, Nat.not_le.mpr hlt, if_false,
        Bool.false_eq_true]
      split
      · have hclear := SigStep.opInv.steps .refl (steps_clearEndpoint (μ := silentMode)
          (({ s with whoP := caller } : State).causeSig i n) trivial
          i fun _ => .inl trivial)
        exact hcause.kept (hclear.kept i hcause.alive)
      · exact hcause
    | _ => exact hraise.elim
  | _ => exact hraise.elim

/-- The user processes before `i` that have signals. -/
def ahead (s : State) (i : Slot) : Finset Slot :=
  Finset.univ.filter fun j => 4 ≤ j.val ∧ s.rtsIsset j rtsSignaled = true ∧ j < i

theorem mem_ahead {j : Slot} :
    j ∈ s.ahead i ↔ 4 ≤ j.val ∧ s.rtsIsset j rtsSignaled = true ∧ j < i := by
  simp [ahead]

/-- The process that is found is this one, or one ahead of it. -/
theorem ksigNext_cases (huser : 4 ≤ i.val) (hsig : s.rtsIsset i rtsSignaled = true) :
    s.ksigNext = some i ∨ ∃ rq ∈ s.ahead i, s.ksigNext = some rq := by
  obtain ⟨rq, hnext, hle⟩ := ksigNext_le huser hsig
  by_cases heq : rq = i
  · exact .inl (heq ▸ hnext)
  · obtain ⟨hrq, hsignaled⟩ := ksigNext_signaled hnext
    have hlt : rq < i := lt_of_le_of_ne hle heq
    exact .inr ⟨rq, mem_ahead.mpr ⟨hrq, hsignaled, hlt⟩, hnext⟩

theorem Unfetched.reply (h : s.Unfetched i e sig) (hnext : s.ksigNext = some i) :
    ∃ map, s.ksigReply = some (e, map) ∧ isSet map (sigbit sig) = true :=
  ⟨(s.proc i).pPending, by rw [ksigReply, hnext, Option.map_some, h.endpoint], h.pending⟩

/-- If PM asks for signals, it is told about one process ahead after the other, and then
about this one. -/
theorem Unfetched.fetched_soon (huser : 4 ≤ i.val) {n : Nat} :
    ∀ s : State, s.Unfetched i e sig → (s.ahead i).card ≤ n →
      ∃ k ≤ n, ∃ map, (doGetksig^[k] s).ksigReply = some (e, map) ∧
        isSet map (sigbit sig) = true := by
  induction n with
  | zero =>
    intro s h hcard
    refine ⟨0, Nat.le_refl _, h.reply ?_⟩
    rcases ksigNext_cases huser h.signaled with hnext | ⟨rq, hmem, _⟩
    · exact hnext
    · have hpos := Finset.card_pos.mpr ⟨rq, hmem⟩
      omega
  | succ n ih =>
    intro s h hcard
    rcases ksigNext_cases huser h.signaled with hnext | ⟨rq, hmem, hnext⟩
    · exact ⟨0, Nat.zero_le _, h.reply hnext⟩
    -- one process ahead of this one is done with
    obtain ⟨hother, _, _, hclear⟩ := doGetksig_entry hnext
    have hgone : rq ∉ s.doGetksig.ahead i := fun hin =>
      nomatch hclear.symm.trans (mem_ahead.mp hin).2.1
    have hsub : s.doGetksig.ahead i ⊆ s.ahead i := by
      intro j hj
      have hne : j ≠ rq := fun heq => hgone (heq ▸ hj)
      obtain ⟨hj4, hjsig, hjlt⟩ := mem_ahead.mp hj
      exact mem_ahead.mpr ⟨hj4, ((hother j hne).flags _ (by decide)).symm.trans hjsig, hjlt⟩
    have hless := Finset.card_lt_card
      ((Finset.ssubset_iff_of_subset hsub).mpr ⟨rq, hmem, hgone⟩)
    have hne : i ≠ rq := (mem_ahead.mp hmem).2.2.ne'
    obtain ⟨k, hk, hmap⟩ := ih s.doGetksig (h.kept (hother i hne).kept) (by omega)
    exact ⟨k + 1, by omega, hmap⟩

/-- PM will be told about the signal if it asks: the answer is not NONE before it has been,
and it has been after as many requests as there are slots. -/
structure SignalDue (s : State) (i : Slot) (e : Int) (sig : Nat) : Prop where
  listed : s.ksigReply ≠ none
  reply : s.ksigNext = some i →
    ∃ map, s.ksigReply = some (e, map) ∧ isSet map (sigbit sig) = true
  soon : ∃ k < nrSlots, ∃ map, (doGetksig^[k] s).ksigReply = some (e, map) ∧
    isSet map (sigbit sig) = true

theorem Unfetched.due (h : s.Unfetched i e sig) (huser : 4 ≤ i.val) : s.SignalDue i e sig := by
  refine ⟨?_, h.reply, ?_⟩
  · obtain ⟨rq, hnext, _⟩ := ksigNext_le huser h.signaled
    simp [ksigReply, hnext]
  · obtain ⟨k, hk, hmap⟩ := Unfetched.fetched_soon huser s h (Nat.le_refl _)
    refine ⟨k, Nat.lt_of_le_of_lt hk ?_, hmap⟩
    have hnot : i ∉ s.ahead i := by simp [ahead]
    have hcard := Finset.card_lt_univ_of_notMem hnot
    simpa [nrSlots] using hcard

/-- What the handshake gives in a state: the flags agree with the pending signals, a signal
is not lost before PM has been told or the process has exited, and the process does not run
before PM has finished. -/
structure LosesNothing (s : State) : Prop where
  ok : s.SignalsOk
  fetched : ∀ (i : Slot) (sig : Nat) (op : Op), SignalRun s op → Raises s i sig op → s.Alive i →
    4 ≤ i.val → i ≠ pmSlot → sig < 32 → ∀ u,
    Reaches (fun t op => SignalRun t op ∧ ¬ Fetches t i op ∧ ¬ Exits t i op) (op.run s) u →
      u.SignalDue i (s.proc i).pEndpoint sig
  blocked : ∀ (i : Slot) (sig : Nat) (op : Op), SignalRun s op → Raises s i sig op → s.Alive i →
    4 ≤ i.val → i ≠ pmSlot → sig < 32 → ∀ u,
    Reaches (fun t op => SignalRun t op ∧ ¬ Finishes t i op ∧ ¬ Exits t i op) (op.run s) u →
      u.procIsRunnable i = false

end State

theorem SignalRun.invariant (hop : SignalRun s op)
    (h : s.SignalsOk ∧ ReadyInv s) : (op.run s).SignalsOk ∧ ReadyInv (op.run s) :=
  ⟨(hop.opSignals h.2).ok h.1, h.2.op op hop.kernelRun⟩

theorem State.signalsOk_bootWith {schedulerType : Int} : (bootWith schedulerType).SignalsOk := by
  have hboot : ∀ i, (boot.proc i).pPending = 0#32 ∧ boot.rtsIsset i rtsSignaled = false := by
    decide +kernel
  have hsame : ∀ s : State, SameSignals s (s.setScheduler schedulerType) := fun s =>
    s.setScheduler_rule fun _ => ⟨fun _ => rfl, fun _ => rfl, fun _ _ _ => rfl⟩
  refine (hsame boot).signalsOk fun i _ => ?_
  exact .of_zero (hboot i).1 (hboot i).2

/-- In every state of every run the handshake loses no signal of a user process. -/
theorem kernelSignals_kept {s : State} (h : Reachable SignalRun s) : s.LosesNothing := by
  obtain ⟨schedulerType, hrun⟩ := h
  have hinv := hrun.invariant (fun t => t.SignalsOk ∧ ReadyInv t)
    ⟨signalsOk_bootWith, ReadyInv.bootWith schedulerType⟩
    fun t op ht hop => hop.invariant ht
  refine ⟨hinv.1, fun i sig op hop hraise halive huser hpm hsig u hu => ?_,
    fun i sig op hop hraise halive huser hpm hsig u hu => ?_⟩
  · have hstart := unfetched_of_raises hinv.1 hraise halive huser hpm hsig
    have hend := hu.invariant
      (fun t => t.Unfetched i (s.proc i).pEndpoint sig ∧ ReadyInv t)
      ⟨hstart, (hop.invariant hinv).2⟩ fun t op' ht hop' => by
        refine ⟨ht.1.kept ((hop'.1.opSignals ht.2).kept i ht.1.alive hop'.2.1 ?_ hop'.2.2),
          ht.2.op op' hop'.1.kernelRun⟩
        -- while the signal is pending, an ENDKSIG finds it
        intro hfin
        cases op' with
        | request caller call =>
          cases call with
          | endksig endpt => cases ht.1.signaled.symm.trans hfin.2
          | _ => exact hfin
        | _ => exact hfin
    exact hend.1.due huser
  · have hstart := unfetched_of_raises hinv.1 hraise halive huser hpm hsig
    have hend := hu.invariant
      (fun t => (t.Alive i ∧ t.rtsIsset i rtsSigPending = true) ∧ ReadyInv t)
      ⟨⟨hstart.alive, hstart.sigPending⟩, (hop.invariant hinv).2⟩ fun t op' ht hop' => by
        refine ⟨?_, ht.2.op op' hop'.1.kernelRun⟩
        have hsignals := hop'.1.opSignals ht.2
        by_cases hfetch : Fetches t i op'
        · obtain ⟨hlive, hpend⟩ := hsignals.fetched i ht.1.1 hfetch
          exact ⟨hlive, hpend.trans ht.1.2⟩
        · have hkept := hsignals.kept i ht.1.1 hfetch hop'.2.1 hop'.2.2
          exact ⟨hkept.alive ht.1.1, hkept.sigPending ht.1.2⟩
    by_contra hrunnable
    have hzero : (u.proc i).pRtsFlags = 0#16 := by simpa [procIsRunnable] using hrunnable
    have hset := hend.1.2
    rw [rtsIsset, hzero] at hset
    cases hset

/-- RS kills VFS, PM fetches the signal. -/
def killVfsOps : List Op :=
  [.request rsSlot (.kill 1 sigterm), .request pmSlot .getksig]

theorem kernelSignals_kept_vfs : (runOps (bootWith 0) killVfsOps).LosesNothing ∧
    (runOps (bootWith 0) (killVfsOps.take 1)).ksigReply = some (1, sigbit sigterm) :=
  ⟨kernelSignals_kept ⟨0, reaches_runOps ⟨trivial, trivial, trivial⟩⟩, by decide +kernel⟩

/-- RS sets a virtual timer for the CLOCK task, and it runs out. -/
def clockTimerOps : List Op :=
  [.request rsSlot (.vtimer (-3) State.vtVirtual true 1), .dispatch clockSlot, .tick]

/-- The signal of a kernel task stays pending: no GETKSIG answers with it. -/
theorem taskSignal_unfetched :
    Reachable SignalRun (runOps (bootWith 0) clockTimerOps) ∧
      (runOps (bootWith 0) clockTimerOps).Unfetched clockSlot (-3) sigvtalrm ∧
      ∀ t : State, t.ksigNext ≠ some clockSlot := by
  refine ⟨⟨0, reaches_runOps ⟨trivial, show procIsRunnable _ _ = true from ?_,
    .inl trivial, trivial⟩⟩, ⟨?_, ?_, ?_, ?_, ?_⟩, fun t ht => ?_⟩
  · decide +kernel
  · decide +kernel
  · decide +kernel
  · decide +kernel
  · decide +kernel
  · decide +kernel
  · exact nomatch (ksigNext_signaled ht).1

end Minix.Kernel
