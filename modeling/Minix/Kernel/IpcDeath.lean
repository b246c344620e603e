/-
  Kernel/IpcDeath.lean --- what the death of a process does to the others.

  `clear_endpoint` takes a process out of the queue that it is blocked on and then
  releases everybody who waits for it.  In terms of the system of blocked processes,
  one process after the other gives up.  In between, senders are blocked on a process
  that has no endpoint any more; afterwards there are none (`Attended`).
-/
import Minix.Kernel.IpcNet

set_option autoImplicit false

namespace Minix.Kernel

open Minix.Foundation Relation State Function

variable {f : BitVec 16} {rc : Slot} {s' s2 : State}

/-! ## Losing an endpoint -/

namespace State

variable {s : State}

/-- A write to the flag word without the macros. -/
theorem rtsIsset_clear (s : State) (rc i : Slot) (f g : BitVec 16) :
    (s.modProc rc fun p => p.setRts (clearBits p.pRtsFlags f)).rtsIsset i g =
      if i = rc then isSet (clearBits (s.proc rc).pRtsFlags f) g else s.rtsIsset i g := by
  simp only [rtsIsset, modProc_proc]
  split <;> rfl

theorem FreeExact.clear (h : s.FreeExact) {rc : Slot} (hd : rtsSlotFree &&& f = 0#16) :
    (s.modProc rc fun p => p.setRts (clearBits p.pRtsFlags f)).FreeExact := by
  intro i hi
  rw [rtsIsset_clear] at hi
  rw [modProc_proc]
  split_ifs with hic
  · rw [if_pos hic, isSet_clearBits_of_disjoint hd] at hi
    have hfree := h rc hi
    simp only [Proc.setRts, hfree, clearBits_eq_self hd]
  · rw [if_neg hic] at hi
    exact h i hi

end State

theorem FlagOff.clear (s : State) (rc : Slot) (hf : f ≠ 0#16) (hfree : rtsSlotFree &&& f = 0#16) :
    FlagOff f rc s (s.modProc rc fun p => p.setRts (clearBits p.pRtsFlags f)) where
  unsched := s.unsched_modProc fun _ => rfl
  off i := by
    rw [s.rtsIsset_clear]
    split
    · rw [isSet_clearBits_self hf]
    · rfl
  rest i g _ hd := by
    rw [s.rtsIsset_clear]
    split_ifs with hi
    · rw [hi, isSet_clearBits_of_disjoint hd]
      rfl
    · rfl
  free h _ := h.clear hfree

namespace State

variable {s : State}

/-- The walk of `clear_endpoint` over the queue of the destination finds the sender. -/
theorem IpcInv.withdrawSender_eq (h : s.IpcInv) {target : Slot}
    (hsend : s.net.sending rc = some target)
    (hpath : s.callerLinks.Path (.head target) (pendingSenders s.log target)) :
    ∃ before after, pendingSenders s.log target = before ++ rc :: after ∧
      s.withdrawSender rc = ((s.setCallerLink (Links.lastRef (.head target) before)
        (s.proc rc).pQLink).modProc rc fun p =>
          p.setRts (clearBits p.pRtsFlags rtsSending)).record (.withdrawn rc target) := by
  obtain ⟨hset, hnamed⟩ := s.net_sending_eq_some_iff.mp hsend
  obtain ⟨hnr, hep⟩ := s.named_eq_some_iff.mp hnamed
  obtain ⟨d, hd, halive⟩ := h.target rc hset
  have htd : target = d := Option.some.inj (hnamed.symm.trans hd)
  have hok := s.isokendpt_of_alive hnr hep (htd ▸ halive)
  have hmem : rc ∈ pendingSenders s.log target := (h.wf.mem rc target).mpr hsend
  obtain ⟨xpp, hseek, ⟨before, n, after, hqueue, hxpp, hn, hfind⟩ | ⟨_, _, hall⟩⟩ :=
    hpath.exists_seek (fun xp => xp == rc) (h.length_lt)
  · have hnrc : n = rc := by simpa using List.find?_some hfind
    subst hnrc
    refine ⟨before, after, hqueue, ?_⟩
    unfold withdrawSender
    rw [if_pos hset, hok]
    dsimp only
    rw [hseek]
    dsimp only
    rw [unlinkSender, hn, hxpp]
  · exact absurd (hall rc hmem) (by simp)

/-- The state after a dying process has left its queue and its receive. -/
def withdrawnState (s : State) (rc : Slot) : State :=
  (s.withdrawSender rc).modProc rc fun p => p.setRts (clearBits p.pRtsFlags rtsReceiving)

/-- What the end of a wait leaves as it was. -/
structure Shrinks (s s' : State) : Prop where
  names : SameNames s s'
  sending : ∀ i d, s'.net.sending i = some d → s.net.sending i = some d
  receiving : ∀ i, s'.rtsIsset i rtsReceiving = true →
    s.rtsIsset i rtsReceiving = true ∧ (s'.proc i).pGetfromE = (s.proc i).pGetfromE
  kept : s.log ⊆ s'.log

/-- The process `rp` has given up, and nobody else has begun to wait. -/
structure Quits (rp : Slot) (s s' : State) : Prop where
  inv : s'.IpcInv
  net : s'.net = s.net.quit rp
  shrinks : Shrinks s s'

end State

section Ends

variable {s : State} {rp : Slot} {a b : Slot → Option Int} {L : Links Slot Slot} {l : List Event}

theorem Changes.shrinks (hc : Changes s s' a b L l)
    (hsends : ∀ i n, a i = some n → s.sendsTo i = some n)
    (hrecvs : ∀ i n, b i = some n → s.receivesFrom i = some n) (hkept : s.log ⊆ l) :
    State.Shrinks s s' where
  names := hc.names
  sending i d hi := by
    rw [hc.net] at hi
    obtain ⟨n, hn, hd⟩ := Option.bind_eq_some_iff.mp hi
    obtain ⟨hset, hto⟩ := waiting_eq_some_iff.mp (hsends i n hn)
    exact s.net_sending_eq_some_iff.mpr ⟨hset, hto ▸ hd⟩
  receiving i hi := by
    have hfrom : s'.receivesFrom i = some _ := waiting_eq_some_iff.mpr ⟨hi, rfl⟩
    rw [hc.recvs] at hfrom
    obtain ⟨hset, hget⟩ := waiting_eq_some_iff.mp (hrecvs i _ hfrom)
    exact ⟨hset, hget.symm⟩
  kept := hc.log ▸ hkept

theorem Changes.quits (hc : Changes s s' a b L l) (h : s.IpcInv)
    (hsends : ∀ i n, a i = some n → s.sendsTo i = some n)
    (hrecvs : ∀ i n, b i = some n → s.receivesFrom i = some n) (hkept : s.log ⊆ l)
    (hpath : ∀ d, s.Alive d → s.rtsIsset d rtsNoEndpoint = false →
      L.Path (.head d) (pendingSenders l d))
    (hserved : Served l) (hnet : s'.net = s.net.quit rp) : State.Quits rp s s' := by
  have hstep : Net.Step True s.net s'.net := hnet ▸ .quit rp
  exact ⟨(IpcStep.of_changes h hc (fun i n hi => .inl (hsends i n hi))
    (fun i n hi => .inl (hrecvs i n hi)) hpath hserved hstep).inv, hnet,
    hc.shrinks hsends hrecvs hkept⟩

end Ends

namespace State

variable {s : State}

/-- A dying process that does not send only leaves its receive. -/
theorem IpcInv.withdraw_of_not (h : s.IpcInv) (hsend : s.net.sending rc = none) :
    Quits rc s (s.withdrawnState rc) := by
  rw [withdrawnState, withdrawSender, if_neg (by simp [h.sending_none_iff.mp hsend])]
  have hc := (Changes.refl s).stopReceiving (.clear s rc (by decide) (by decide))
  refine hc.quits h (fun _ _ => id) (fun _ _ => of_update_none) (List.Subset.refl _) h.path h.served
    ?_
  -- It is in no queue, so giving up is ending its receive.
  have hqueue : ∀ d, (s.net.queue d).erase rc = s.net.queue d := by
    intro d
    refine List.erase_of_not_mem fun hmem => ?_
    exact nomatch hsend.symm.trans ((h.wf.mem rc d).mp hmem)
  have hupdate : update s.net.sending rc none = s.net.sending := by
    rw [← hsend, update_eq_self]
  rw [Net.quit, hupdate, funext hqueue, hc.net, s.net_eq]
  simp only [bind_update]
  rfl

/-- A dying process that sends leaves the queue of its destination too. -/
theorem IpcInv.withdraw_of_sending (h : s.IpcInv) {target : Slot} (hdied : .died rc ∈ s.log)
    (hsend : s.net.sending rc = some target)
    (hpath : s.callerLinks.Path (.head target) (pendingSenders s.log target)) :
    Quits rc s (s.withdrawnState rc) := by
  obtain ⟨before, after, hqueue, heq⟩ := h.withdrawSender_eq hsend hpath
  have hmem : rc ∈ pendingSenders s.log target := by simp [hqueue]
  have hends : (Event.withdrawn rc target).Ends rc target := .inr (.inr rfl)
  have hc := ((((Changes.refl s).setCallerLink (Links.lastRef (.head target) before)
    (s.proc rc).pQLink).stopSending (.clear _ rc (by decide) (by decide))).record
    (.withdrawn rc target)).stopReceiving (.clear _ rc (by decide) (by decide))
  rw [← heq] at hc
  refine Changes.quits hc h (fun _ _ => of_update_none) (fun _ _ => of_update_none)
    (List.subset_cons_self _ _) ?_ ⟨⟨hmem, hdied⟩, h.served⟩ ?_
  · intro d hlive hd
    rw [h.pending_ends hends hmem]
    exact h.path_unlink hqueue (fun c => Links.get_set) (h.path d hlive hd)
  · refine hc.net.trans ?_
    rw [s.net_eq]
    simp only [Net.quit, bind_update]
    congr 1
    funext d
    exact h.pending_ends hends hmem d

/-! ## Releasing those who wait for it -/

theorem Shrinks.refl {s : State} : Shrinks s s :=
  ⟨⟨fun _ => rfl, fun _ => Iff.rfl, fun _ => rfl, rfl⟩, fun _ _ h => h, fun _ h => ⟨h, rfl⟩,
    List.Subset.refl _⟩

theorem Shrinks.trans {s'' : State} (h : Shrinks s s') (h' : Shrinks s' s'') : Shrinks s s'' where
  names := h.names.trans h'.names
  sending i d hi := h.sending i d (h'.sending i d hi)
  receiving i hi := by
    obtain ⟨hi', hget'⟩ := h'.receiving i hi
    obtain ⟨hi'', hget⟩ := h.receiving i hi'
    exact ⟨hi'', hget'.trans hget⟩
  kept := List.Subset.trans h.kept h'.kept

theorem Shrinks.of_same (h : SameIpc s s') : Shrinks s s' where
  names := ⟨h.endpoint, h.alive, h.noEndpoint, h.procPtr⟩
  sending i d hi := by rwa [h.net] at hi
  receiving i hi := ⟨(h.receiving).symm.trans hi, h.getfrom i⟩
  kept := h.kept

/-- A sender whose destination has lost its endpoint is released. -/
theorem IpcInv.orphan (h : s.IpcInv) {rp : Slot} (hend : s.rtsIsset rc rtsNoEndpoint = true)
    (hdied : .died rc ∈ s.log) (hsend : s.net.sending rp = some rc) (hrecv : s.net.receiving rp = none) :
    Quits rp s ((s.rtsUnset rp rtsSending).record (.orphaned rp rc)) := by
  have hmem : rp ∈ pendingSenders s.log rc := (h.wf.mem rp rc).mpr hsend
  have hends : (Event.orphaned rp rc).Ends rp rc := .inr (.inl rfl)
  have hc := ((Changes.refl s).stopSending (.rtsUnset s rp (by decide) (by decide)
    (by decide))).record (.orphaned rp rc)
  refine hc.quits h (fun _ _ => of_update_none) (fun _ _ => id) (List.subset_cons_self _ _) ?_
    ⟨⟨hmem, hdied⟩, h.served⟩ ?_
  · intro d hlive hd
    -- the dead process keeps its links, but nobody reads them
    have hne : rp ∉ pendingSenders s.log d := by
      intro hin
      rw [h.queue_unique hin hmem] at hd
      exact nomatch hend.symm.trans hd
    rw [h.pending_ends hends hmem, List.erase_of_not_mem hne]
    exact h.path d hlive hd
  · have hnone : update s.net.receiving rp none = s.net.receiving := by
      rw [← hrecv, update_eq_self]
    rw [Net.quit, hnone, hc.net, s.net_eq]
    simp only [bind_update]
    congr 1
    funext d
    exact h.pending_ends hends hmem d

/-- What `clear_endpoint` does to one waiting process is a sequence of steps, after
which it does not send to the dead process. -/
structure Releases (rc rp : Slot) (s s' : State) : Prop where
  inv : s'.IpcInv
  steps : ReflTransGen (Net.Step True) s.net s'.net
  shrinks : Shrinks s s'
  released : s'.net.sending rp ≠ some rc

theorem sameIpc_modRetreg (s : State) (rp : Slot) (r : Int) :
    SameIpc s (s.modProc rp fun p => { p with pRetreg := r }) :=
  .modProc s fun _ => ⟨rfl, rfl, rfl, rfl, rfl, rfl⟩

section

variable (h : s.IpcInv) (hend : s.rtsIsset rc rtsNoEndpoint = true) (hdied : .died rc ∈ s.log)
include h hend hdied

theorem IpcInv.releaseWaiter (rp : Slot) : Releases rc rp s (s.releaseWaiter rc rp) := by
  set s1 := s.modPriv (s.proc rp).pPriv fun sp =>
    { sp with sNotifyPending := sp.sNotifyPending &&& ~~~(1#32 <<< (s.privOf rc).sId.val) }
  have hsame1 : SameIpc s s1 := .of_erase (erase_modPriv fun _ => rfl)
  have h1 := h.same hsame1
  unfold State.releaseWaiter
  dsimp only
  split
  · rename_i hempty
    refine ⟨h, .refl, .refl, ?_⟩
    have hflags : (s.proc rp).pRtsFlags = rtsSlotFree := by simpa [isemptyp] using hempty
    have hnot : s.rtsIsset rp rtsSending = false := by
      rw [rtsIsset, hflags]
      decide
    rw [s.net_sending_of_not hnot]
    simp
  · generalize hs2 : (if (s1.rtsIsset rp rtsReceiving &&
        (s1.proc rp).pGetfromE == (s1.proc rc).pEndpoint) = true then
        (s1.modProc rp fun p => { p with pRetreg := esrcdied }).rtsUnset rp rtsReceiving
      else s1) = s2
    -- after the first test the process does not receive from the dead one
    have hrecv : s2.IpcInv ∧ ReflTransGen (Net.Step True) s.net s2.net ∧ Shrinks s s2 ∧
        s2.net.receiving rp ≠ some (some rc) := by
      rw [← hs2]
      split_ifs with hnot
      · have herr := sameIpc_modRetreg s1 rp esrcdied
        have hnet := net_rtsUnset_receiving (s := s1.modProc rp fun p => { p with pRetreg := esrcdied }) rp
        refine ⟨(IpcStep.unblock (h1.same herr) : IpcStep True _ _).inv, .single ?_, ?_, ?_⟩
        · rw [hnet, herr.net, hsame1.net]
          exact .unblock rp
        · refine ((Shrinks.of_same hsame1).trans (.of_same herr)).trans ?_
          exact (changes_unblock _).shrinks (fun _ _ => id) (fun _ _ => of_update_none)
            (List.Subset.refl _)
        · rw [hnet]
          simp [Net.unblock]
      · refine ⟨h1, by rw [hsame1.net], .of_same hsame1, ?_⟩
        intro hrc
        obtain ⟨hset, hsource⟩ := s1.net_receiving_eq_some_iff.mp hrc
        unfold source at hsource
        split at hsource
        · simp at hsource
        · obtain ⟨q, hq, hqrc⟩ := Option.map_eq_some_iff.mp hsource
          have hq' : q = rc := by simpa using hqrc
          have hep := (s1.named_eq_some_iff.mp hq).2
          rw [hq'] at hep
          exact hnot (by simp [hset, hep])
    obtain ⟨h2, hsteps, hshrinks, hnrecv⟩ := hrecv
    split
    · rename_i hsend
      simp only [Bool.and_eq_true, beq_iff_eq] at hsend
      have herr := sameIpc_modRetreg s2 rp edstdied
      set s3 := s2.modProc rp fun p => { p with pRetreg := edstdied }
      have h3 := h2.same herr
      have hsent : s3.net.sending rp = some rc := by
        rw [herr.net, s2.net_sending_eq_some_iff, hsend.2]
        exact ⟨hsend.1, h2.endpoints.named⟩
      have hnone : s3.net.receiving rp = none := by
        cases hx : s3.net.receiving rp with
        | none => rfl
        | some x =>
          have hxrc := h3.wf.both hsent hx
          rw [herr.net, hxrc] at hx
          exact absurd hx hnrecv
      have hend3 : s3.rtsIsset rc rtsNoEndpoint = true := by
        rw [herr.noEndpoint, hshrinks.names.noEndpoint]
        exact hend
      have hdied3 : .died rc ∈ s3.log := herr.kept (hshrinks.kept hdied)
      obtain ⟨hinv, hnet, hshrink⟩ := h3.orphan hend3 hdied3 hsent hnone
      refine ⟨hinv, hsteps.tail ?_, (hshrinks.trans (.of_same herr)).trans hshrink, ?_⟩
      · rw [hnet, herr.net]
        exact .quit rp
      · rw [hnet]
        simp [Net.quit]
    · rename_i hnot
      refine ⟨h2, hsteps, hshrinks, ?_⟩
      intro hrc
      obtain ⟨hset, hnamed⟩ := s2.net_sending_eq_some_iff.mp hrc
      have hep := (s2.named_eq_some_iff.mp hnamed).2
      exact hnot (by simp [hset, hep])

theorem IpcInv.releaseWaiters {rps : List Slot} : (s.releaseWaiters rc rps).IpcInv ∧
      ReflTransGen (Net.Step True) s.net (s.releaseWaiters rc rps).net ∧
      Shrinks s (s.releaseWaiters rc rps) ∧
      ∀ rp ∈ rps, (s.releaseWaiters rc rps).net.sending rp ≠ some rc := by
  induction rps generalizing s with
  | nil => exact ⟨h, .refl, .refl, by simp⟩
  | cons rp rps ih =>
    have hone := h.releaseWaiter hend hdied rp
    have hend' := (hone.shrinks.names.noEndpoint rc).trans hend
    obtain ⟨hinv, hsteps, hshrinks, hreleased⟩ := ih hone.inv hend' (hone.shrinks.kept hdied)
    refine ⟨hinv, hone.steps.trans hsteps, hone.shrinks.trans hshrinks, ?_⟩
    intro i hi hrc
    rcases List.mem_cons.mp hi with rfl | hi
    · exact hone.released (hshrinks.sending i rc hrc)
    · exact hreleased i hi hrc

end

/-! ## `clear_endpoint` -/

/-- The process `rc` has lost its endpoint, and nothing else has changed. -/
structure Dies (rc : Slot) (s s' : State) : Prop where
  inv : s'.IpcInv
  net : s'.net = s.net
  links : s'.callerLinks = s.callerLinks
  queue : pendingSenders s'.log = pendingSenders s.log
  noEndpoint : s'.rtsIsset rc rtsNoEndpoint = true
  others : ∀ i, i ≠ rc → s'.rtsIsset i rtsNoEndpoint = s.rtsIsset i rtsNoEndpoint
  died : .died rc ∈ s'.log
  sources : s.SourcesOk → s'.SourcesOk

/-- A process loses its endpoint; its queue is not looked at any more. -/
theorem IpcInv.die (h : s.IpcInv) (halive : s.Alive rc) :
    Dies rc s ((s.rtsSet rc rtsNoEndpoint).record (.died rc)) := by
  have hunsched := unsched_rtsSet s rc rtsNoEndpoint
  have hlog : (s.rtsSet rc rtsNoEndpoint).log = s.log :=
    frame_congr log hunsched rfl
  have hlinks : (s.rtsSet rc rtsNoEndpoint).callerLinks = s.callerLinks :=
    frame_congr callerLinks hunsched rfl
  have hnamed : (s.rtsSet rc rtsNoEndpoint).named = s.named :=
    frame_congr named hunsched rfl
  have hsendto := fun i => frame_proc Proc.pSendtoE hunsched i rfl
  have hgetfrom := fun i => frame_proc Proc.pGetfromE hunsched i rfl
  have hflag : ∀ i g, g &&& rtsNoEndpoint = 0#16 →
      (s.rtsSet rc rtsNoEndpoint).rtsIsset i g = s.rtsIsset i g :=
    fun i g hg => rtsIsset_rtsSet_of_disjoint s rc i hg
  have hlive : ∀ i, (s.rtsSet rc rtsNoEndpoint).Alive i ↔ s.Alive i := by
    intro i
    rw [Alive, Alive, hflag i _ (by decide)]
  have hnet : (s.rtsSet rc rtsNoEndpoint).net = s.net := by
    have hsend := fun i => hflag i rtsSending (by decide)
    have hrecv := fun i => hflag i rtsReceiving (by decide)
    simp only [net, source, hsend, hrecv, hnamed, hsendto, hgetfrom, hlog]
  have hinv : (s.rtsSet rc rtsNoEndpoint).IpcInv := by
    refine ⟨?_, h.free.rtsSet halive (by decide), ?_, ?_, ?_, hnet ▸ h.wf, hlog ▸ h.served⟩
    · intro i
      rw [frame_proc Proc.pEndpoint hunsched i rfl]
      exact h.endpoints i
    · rw [frame_congr procPtr hunsched rfl, hlive]
      exact h.current
    · intro i hi
      obtain ⟨d, hd, hd'⟩ := h.target i ((hflag i _ (by decide)).symm.trans hi)
      refine ⟨d, ?_, (hlive d).mpr hd'⟩
      rw [hnamed, hsendto]
      exact hd
    · intro d hd hend
      rw [hlinks, hlog]
      rw [rtsIsset_rtsSet_eq] at hend
      split at hend
      · simp at hend
      · exact h.path d ((hlive d).mp hd) hend
  have hrecord : SameIpc (s.rtsSet rc rtsNoEndpoint)
      ((s.rtsSet rc rtsNoEndpoint).record (.died rc)) := .record _ rfl
  refine ⟨hinv.same hrecord, hrecord.net.trans hnet, hlinks, ?_, ?_, ?_, by simp, ?_⟩
  · rw [hrecord.queue, hlog]
  · rw [hrecord.noEndpoint, rtsIsset_rtsSet_eq, if_pos rfl]
  · intro i hi
    rw [hrecord.noEndpoint, rtsIsset_rtsSet_eq, if_neg hi]
  intro hsrc i hi
  rw [hrecord.receiving, hflag i _ (by decide)] at hi
  obtain ⟨x, hx, halive⟩ := hsrc i hi
  refine ⟨x, ?_, fun j hj => (hlive j).mpr (halive j hj)⟩
  rw [hrecord.getfrom, hgetfrom, source, hrecord.named, hnamed]
  exact hx

theorem Dies.same {s1 : State} (h : Dies rc s s1) (hsame : SameIpc s1 s2) : Dies rc s s2 where
  inv := h.inv.same hsame
  net := hsame.net.trans h.net
  links := hsame.links.trans h.links
  queue := hsame.queue.trans h.queue
  noEndpoint := (hsame.noEndpoint rc).trans h.noEndpoint
  others i hi := (hsame.noEndpoint i).trans (h.others i hi)
  died := hsame.kept h.died
  sources hsrc := hsame.sources (h.sources hsrc)

/-- What `clear_endpoint` does after the process has lost its endpoint: the process gives
up, and so does everybody who waits for it. -/
theorem Dies.release (hdies : Dies rc s s2) (h : s.IpcInv) (hatt : s.Attended) :
    ((s2.withdrawnState rc).releaseWaiters rc (List.finRange nrSlots)).IpcInv ∧
      ((s2.withdrawnState rc).releaseWaiters rc (List.finRange nrSlots)).Attended ∧
      (s.SourcesOk →
        ((s2.withdrawnState rc).releaseWaiters rc (List.finRange nrSlots)).SourcesOk) ∧
      ReflTransGen (Net.Step True) s.net
        ((s2.withdrawnState rc).releaseWaiters rc (List.finRange nrSlots)).net := by
  -- the queue of the destination is intact, also if that is the dying process
  have hpath : ∀ target, s2.net.sending rc = some target →
      s2.callerLinks.Path (.head target) (pendingSenders s2.log target) := by
    intro target htarget
    rw [hdies.net] at htarget
    obtain ⟨hset, hnamed⟩ := s.net_sending_eq_some_iff.mp htarget
    obtain ⟨d, hd, hlive⟩ := h.target rc hset
    have htd : d = target := Option.some.inj (hd.symm.trans hnamed)
    rw [hdies.links, hdies.queue]
    exact h.path target (htd ▸ hlive) (hatt rc target htarget)
  have hwithdraw : Quits rc s2 (s2.withdrawnState rc) := by
    cases hsent : s2.net.sending rc with
    | none => exact hdies.inv.withdraw_of_not hsent
    | some target => exact hdies.inv.withdraw_of_sending hdies.died hsent (hpath target hsent)
  obtain ⟨h3, hnet3, hshrinks3⟩ := hwithdraw
  have hend3 : (s2.withdrawnState rc).rtsIsset rc rtsNoEndpoint = true :=
    (hshrinks3.names.noEndpoint rc).trans hdies.noEndpoint
  obtain ⟨h4, hsteps, hshrinks4, hreleased⟩ :=
    h3.releaseWaiters hend3 (hshrinks3.kept hdies.died)
  generalize (s2.withdrawnState rc).releaseWaiters rc (List.finRange nrSlots) = s4
    at h4 hsteps hshrinks4 hreleased ⊢
  have hshrinks := hshrinks3.trans hshrinks4
  refine ⟨h4, ?_, ?_, ?_⟩
  · intro i d hi
    have hne : d ≠ rc := by
      rintro rfl
      exact hreleased i (List.mem_finRange i) hi
    have hnames := hshrinks.names.noEndpoint d
    refine hnames.trans ((hdies.others d hne).trans (hatt i d ?_))
    rw [← hdies.net]
    exact hshrinks.sending i d hi
  · intro hsrc i hi
    obtain ⟨hrecv, hget⟩ := hshrinks.receiving i hi
    obtain ⟨x, hx, hlive⟩ := hdies.sources hsrc i hrecv
    refine ⟨x, ?_, fun j hj => (hshrinks.names.alive j).mpr (hlive j hj)⟩
    rw [hshrinks.names.source, hget]
    exact hx
  · refine ReflTransGen.head ?_ hsteps
    rw [hnet3, hdies.net]
    exact .quit rc

/-- The death of a process is a sequence of steps of the system, after which every
blocked sender has a destination. -/
theorem IpcInv.clearEndpoint (h : s.IpcInv) (hatt : s.Attended) {rc : Slot} :
    (s.clearEndpoint rc).IpcInv ∧ (s.clearEndpoint rc).Attended ∧
      (s.SourcesOk → (s.clearEndpoint rc).SourcesOk) ∧
      ReflTransGen (Net.Step True) s.net (s.clearEndpoint rc).net := by
  unfold State.clearEndpoint
  split
  · exact ⟨h.same (.of_erase rfl), hatt, id, .refl⟩
  rename_i hempty
  split
  · exact ⟨h.same (.of_erase rfl), hatt, id, .refl⟩
  have halive : s.Alive rc := by
    by_contra hfree
    have hflags := h.free rc (by simpa [Alive] using hfree)
    exact hempty (by simp [isemptyp, hflags])
  have hdies := h.die halive
  generalize (s.rtsSet rc rtsNoEndpoint).record (.died rc) = s1 at hdies ⊢
  have hsame : SameIpc s1 (if isSet (s1.privOf rc).sFlags sysProc = true then
      s1.modPriv (s1.proc rc).pPriv fun sp => { sp with sAsynsize := 0 } else s1) := by
    split
    · exact .of_erase (erase_modPriv fun _ => rfl)
    · exact .of_erase rfl
  exact (hdies.same hsame).release h hatt

end State

end Minix.Kernel
