/-
  Kernel/DeliverySlot.lean --- the delivery slot of a process.

  A message for a process is first put into its delivery slot, one entry large, and
  copied to its memory when the process is scheduled.  The history of a run says which
  messages were put into the slot and which were copied out.  `SlotsExact` says that the
  second list is the first one, apart from the message that is in the slot: no message
  was overwritten, none was lost and none was copied twice.

  The slot is filled only if it is empty because a process with a message in its slot is
  not blocked in a receive, and does not make calls before the message is delivered.
-/
import Minix.Kernel.Operation
import Minix.Kernel.Fork

set_option autoImplicit false

namespace Minix.Kernel

open Minix.Foundation Relation State

variable {s : State} {rp caller : Slot} {f : BitVec 16}

/-! ## The history of the slots -/

/-- The messages that were put into the slot of `d`, the last one first. -/
def queuedTo : List Event → Slot → List Message
  | [], _ => []
  | .queued dst m :: log, d => if d = dst then m :: queuedTo log d else queuedTo log d
  | .blocked _ _ :: log, d | .taken _ _ _ :: log, d | .died _ :: log, d | .orphaned _ _ :: log, d
  | .withdrawn _ _ :: log, d | .copied _ _ :: log, d | .discarded _ _ :: log, d => queuedTo log d

/-- The messages that were copied out of the slot of `d`, the last one first. -/
def copiedTo : List Event → Slot → List Message
  | [], _ => []
  | .copied dst m :: log, d => if d = dst then m :: copiedTo log d else copiedTo log d
  | .blocked _ _ :: log, d | .taken _ _ _ :: log, d | .died _ :: log, d | .orphaned _ _ :: log, d
  | .withdrawn _ _ :: log, d | .queued _ _ :: log, d | .discarded _ _ :: log, d => copiedTo log d

namespace State

/-- The message in the delivery slot. -/
def inSlot (s : State) (i : Slot) : List Message :=
  if s.mfIsset i mfDelivermsg then [(s.proc i).pDelivermsg] else []

/-- A process with a message in its slot is not receiving, and what was put into a slot
and is no longer there has been copied out, each message once and in order. -/
structure SlotsExact (s : State) : Prop where
  receiving : ∀ i, s.mfIsset i mfDelivermsg = true → s.rtsIsset i rtsReceiving = false
  copied : ∀ i, queuedTo s.log i = s.inSlot i ++ copiedTo s.log i

/-! ## The invariant -/

/-- The slots are in order, in a table in which links lead to live processes. -/
structure SlotInv (s : State) : Prop extends s.SlotsExact where
  free : s.FreeExact
  current : s.Alive s.procPtr
  idle : s.Alive idleSlot
  links : ∀ r x, s.callerLinks.get r = some x → s.Alive x
  live : ∀ i, s.mfIsset i mfDelivermsg = true → s.Alive i

end State

/-- No delivery slot changes, and nobody whose slot is full begins to receive. -/
structure SameSlots (s s' : State) : Prop where
  alive : ∀ i, s'.Alive i ↔ s.Alive i
  current : s.Alive s.procPtr → s.Alive idleSlot → s'.Alive s'.procPtr
  free : s.FreeExact → s.Alive s.procPtr → s.Alive idleSlot → s'.FreeExact
  links : ∀ r x, s'.callerLinks.get r = some x →
    (∃ r', s.callerLinks.get r' = some x) ∨ s.Alive x
  slot : ∀ i, s'.mfIsset i mfDelivermsg = s.mfIsset i mfDelivermsg
  message : ∀ i, (s'.proc i).pDelivermsg = (s.proc i).pDelivermsg
  receiving : ∀ i, s.mfIsset i mfDelivermsg = true → s'.rtsIsset i rtsReceiving = true →
    s.rtsIsset i rtsReceiving = true
  queued : queuedTo s'.log = queuedTo s.log
  copied : copiedTo s'.log = copiedTo s.log

theorem State.SlotInv.same {s' : State} (h : s.SlotInv) (hs : SameSlots s s') : s'.SlotInv where
  receiving i hi := by
    rw [hs.slot] at hi
    by_contra hrecv
    have hset := hs.receiving i hi (by simpa using hrecv)
    exact nomatch (h.receiving i hi).symm.trans hset
  copied i := by
    rw [hs.queued, hs.copied, inSlot, hs.slot, hs.message]
    exact h.copied i
  free := hs.free h.free h.current h.idle
  current := hs.current h.current h.idle
  idle := (hs.alive _).mpr h.idle
  links r x hx := by
    rw [hs.alive]
    rcases hs.links r x hx with ⟨r', hr'⟩ | halive
    · exact h.links r' x hr'
    · exact halive
  live i hi := (hs.alive i).mpr (h.live i ((hs.slot i).symm.trans hi))

namespace SameSlots

variable {s s' : State}

theorem refl {s : State} : SameSlots s s :=
  ⟨fun _ => Iff.rfl, fun hcur _ => hcur, fun hfree _ _ => hfree, fun r _ hx => .inl ⟨r, hx⟩,
    fun _ => rfl, fun _ => rfl, fun _ _ hr => hr, rfl, rfl⟩

theorem trans {s'' : State} (h : SameSlots s s') (h' : SameSlots s' s'') : SameSlots s s'' where
  alive i := (h'.alive i).trans (h.alive i)
  current hcur hidle := h'.current (h.current hcur hidle) ((h.alive _).mpr hidle)
  free hfree hcur hidle :=
    h'.free (h.free hfree hcur hidle) (h.current hcur hidle) ((h.alive _).mpr hidle)
  links r x hx := by
    rcases h'.links r x hx with ⟨r', hr'⟩ | halive
    · exact h.links r' x hr'
    · exact .inr ((h.alive x).mp halive)
  slot i := (h'.slot i).trans (h.slot i)
  message i := (h'.message i).trans (h.message i)
  receiving i hi hrecv := h.receiving i hi (h'.receiving i ((h.slot i).trans hi) hrecv)
  queued := h'.queued.trans h.queued
  copied := h'.copied.trans h.copied

theorem quiet (h : s'.erase = s.erase) : SameSlots s s' := by
  have hlinks : s'.callerLinks = s.callerLinks :=
    frame_congr callerLinks h rfl
  have hflag : ∀ i f, s'.rtsIsset i f = s.rtsIsset i f := fun i f =>
    frame_congr (fun t => t.rtsIsset i f) h rfl
  have hlog : s'.log = s.log := frame_congr log h rfl
  refine ⟨fun i => ?_, fun hcur _ => ?_, fun hfree _ _ => hfree.of_flags fun i => ?_,
    fun r x hx => .inl ⟨r, hlinks ▸ hx⟩, fun i => ?_, fun i => ?_, fun i _ hr => ?_, ?_, ?_⟩
  · rw [Alive, hflag]
    rfl
  · rw [Alive, hflag, frame_congr procPtr h rfl]
    exact hcur
  · exact frame_proc Proc.pRtsFlags h i rfl
  · exact frame_congr (fun t => t.mfIsset i mfDelivermsg) h (funext fun t => t.mfIsset_erase)
  · exact frame_proc Proc.pDelivermsg h i rfl
  · rwa [hflag] at hr
  · rw [hlog]
  · rw [hlog]

/-- A change of what the scheduler writes: only flags matter. -/
theorem of_unsched (h : s'.unsched = s.unsched)
    (halive : ∀ i, s'.rtsIsset i rtsSlotFree = s.rtsIsset i rtsSlotFree)
    (hrecv : ∀ i, s.mfIsset i mfDelivermsg = true → s'.rtsIsset i rtsReceiving = true →
      s.rtsIsset i rtsReceiving = true)
    (hfree : s.FreeExact → s.Alive s.procPtr → s'.FreeExact) : SameSlots s s' := by
  have hlinks : s'.callerLinks = s.callerLinks :=
    frame_congr callerLinks h rfl
  have hlog : s'.log = s.log := frame_congr log h rfl
  refine ⟨fun i => ?_, fun hcur _ => ?_, fun hf hcur _ => hfree hf hcur,
    fun r x hx => .inl ⟨r, hlinks ▸ hx⟩, fun i => ?_, fun i => ?_, hrecv, ?_, ?_⟩
  · rw [Alive, halive]
    rfl
  · rw [Alive, halive, frame_congr procPtr h rfl]
    exact hcur
  · exact frame_congr (fun t => t.mfIsset i mfDelivermsg) h rfl
  · exact frame_proc Proc.pDelivermsg h i rfl
  · rw [hlog]
  · rw [hlog]

theorem house (h : Housekeeping s s') : SameSlots s s' := by
  have hlinks : s'.callerLinks = s.callerLinks :=
    frame_congr callerLinks h.core rfl
  have hlog : s'.log = s.log := frame_congr log h.core rfl
  refine ⟨h.alive, h.current, h.free, fun r x hx => .inl ⟨r, hlinks ▸ hx⟩, fun i => ?_,
    fun i => ?_, fun i _ hr => ?_, ?_, ?_⟩
  · exact frame_congr (fun t => t.mfIsset i mfDelivermsg) h.core rfl
  · exact frame_congr (fun t => (t.proc i).pDelivermsg) h.core rfl
  · rwa [h.flags i _ (by decide)] at hr
  · rw [hlog]
  · rw [hlog]

variable (s : State)

theorem rtsSet (hlive : s.Alive rp)
    (hd : (rtsReceiving ||| rtsSlotFree) &&& f = 0#16) : SameSlots s (s.rtsSet rp f) := by
  have hfree : rtsSlotFree &&& f = 0#16 := disjoint_of_isSet (by decide) hd
  refine of_unsched (s.unsched_rtsSet rp f)
    (fun i => s.rtsIsset_rtsSet_of_disjoint rp i hfree) (fun i _ hr => ?_)
    fun hfr _ => hfr.rtsSet hlive hfree
  rwa [s.rtsIsset_rtsSet_of_disjoint rp i (disjoint_of_isSet (by decide) hd)] at hr

theorem rtsUnset {rp : Slot} (hd : rtsSlotFree &&& f = 0#16) : SameSlots s (s.rtsUnset rp f) :=
  of_unsched (s.unsched_rtsUnset rp f)
    (fun i => s.rtsIsset_rtsUnset_of_disjoint rp i hd (by decide))
    (fun i _ hr => s.rtsIsset_of_rtsUnset rp i (by decide) hr)
    fun hfr hcur => hfr.rtsUnset hcur hd

/-- A flag is cleared without the macro. -/
theorem clear {rp : Slot} (hd : rtsSlotFree &&& f = 0#16) :
    SameSlots s (s.modProc rp fun p => p.setRts (clearBits p.pRtsFlags f)) := by
  refine of_unsched (unsched_modProc _ fun _ => rfl) (fun i => ?_) (fun i _ hr => ?_)
    fun hfr _ => hfr.clear hd
  · rw [rtsIsset_clear]
    split_ifs with hi
    · rw [hi, isSet_clearBits_of_disjoint hd]
      rfl
    · rfl
  · rw [rtsIsset_clear] at hr
    split_ifs at hr with hi
    · rw [hi]
      exact isSet_of_isSet_clearBits hr
    · exact hr

/-- A change of fields of an entry that have nothing to do with its slot. -/
theorem modProc {rp : Slot} {f : Proc → Proc}
    (hf : ∀ p : Proc, (f p).pRtsFlags = p.pRtsFlags ∧ (f p).pMiscFlags = p.pMiscFlags ∧
      (f p).pDelivermsg = p.pDelivermsg)
    (hlinks : ∀ r x, (s.modProc rp f).callerLinks.get r = some x →
      (∃ r', s.callerLinks.get r' = some x) ∨ s.Alive x) : SameSlots s (s.modProc rp f) := by
  have hflags : ∀ i, ((s.modProc rp f).proc i).pRtsFlags = (s.proc i).pRtsFlags :=
    modProc_congr s rp _ (hf _).1
  have hflag : ∀ i g, (s.modProc rp f).rtsIsset i g = s.rtsIsset i g := fun i g => by
    rw [rtsIsset, hflags]
    rfl
  refine ⟨fun i => ?_, fun hcur _ => ?_, fun hfree _ _ => hfree.of_flags hflags, hlinks,
    fun i => ?_, modProc_congr s rp _ (hf _).2.2, fun i _ hr => ?_, rfl, rfl⟩
  · rw [Alive, hflag]
    rfl
  · rw [Alive, hflag]
    exact hcur
  · rw [mfIsset, modProc_congr s rp _ (hf _).2.1]
    rfl
  · rwa [hflag] at hr

/-- The same for fields that are not links either. -/
theorem modOther (rp : Slot) {f : Proc → Proc}
    (hf : ∀ p : Proc, (f p).pRtsFlags = p.pRtsFlags ∧ (f p).pMiscFlags = p.pMiscFlags ∧
      (f p).pDelivermsg = p.pDelivermsg)
    (hlinks : ∀ p : Proc, (f p).pCallerQ = p.pCallerQ ∧ (f p).pQLink = p.pQLink) :
    SameSlots s (s.modProc rp f) := by
  refine modProc s hf fun r x hx => .inl ⟨r, ?_⟩
  have hhead := modProc_congr s rp Proc.pCallerQ (hlinks (s.proc rp)).1
  have hnext := modProc_congr s rp Proc.pQLink (hlinks (s.proc rp)).2
  simp only [callerLinks, hhead, hnext] at hx ⊢
  exact hx

theorem modPending (rp : Slot) (g : Proc → BitVec 32) :
    SameSlots s (s.modProc rp fun p => { p with pPending := g p }) :=
  modOther s rp (fun _ => ⟨rfl, rfl, rfl⟩) fun _ => ⟨rfl, rfl⟩

theorem setCallerLink {r : Ref Slot Slot} {v : Option Slot}
    (hv : ∀ x, v = some x → (∃ r', s.callerLinks.get r' = some x) ∨ s.Alive x) :
    SameSlots s (s.setCallerLink r v) := by
  have hlinks : ∀ c x, (s.setCallerLink r v).callerLinks.get c = some x →
      (∃ r', s.callerLinks.get r' = some x) ∨ s.Alive x := by
    intro c x hx
    rw [callerLinks_setCallerLink, Links.get_set] at hx
    split at hx
    · exact hv x hx
    · exact .inl ⟨c, hx⟩
  cases r with
  | head rp =>
    exact modProc s (f := fun p => { p with pCallerQ := v }) (fun _ => ⟨rfl, rfl, rfl⟩) hlinks
  | next rp =>
    exact modProc s (f := fun p => { p with pQLink := v }) (fun _ => ⟨rfl, rfl, rfl⟩) hlinks

theorem record {e : Event} (hq : queuedTo (e :: s.log) = queuedTo s.log)
    (hc : copiedTo (e :: s.log) = copiedTo s.log) : SameSlots s (s.record e) :=
  ⟨fun _ => Iff.rfl, fun hcur _ => hcur, fun hfree _ _ => hfree,
    fun r _ hx => .inl ⟨r, hx⟩, fun _ => rfl, fun _ => rfl, fun _ _ hr => hr, hq, hc⟩

end SameSlots

/-! ## Steps -/

/-- Calls in which no write to a table fails and no message is dropped. -/
def slotMode : Mode := ⟨False, True, False, True, False, True⟩

namespace State

variable {s s' : State}

/-- A message is put into an empty slot, and its process is not or no longer receiving. -/
theorem SlotInv.filled (h : s.SlotInv) {dst : Slot} (hslot : s.mfIsset dst mfDelivermsg = false)
    (hlive : s.Alive dst) {ep : Int} {m : Message}
    (hs : SameSlots (s.queueMess ep (some m) dst).2 s')
    (hrecv : s'.rtsIsset dst rtsReceiving = false) : s'.SlotInv := by
  rw [queueMess_some] at hs
  generalize hq : (s.modProc dst fun p =>
    { p with pDelivermsg := { m with mSource := ep },
             pMiscFlags := p.pMiscFlags ||| mfDelivermsg }).record
      (.queued dst { m with mSource := ep }) = q at hs
  have hflags : ∀ i, (q.proc i).pRtsFlags = (s.proc i).pRtsFlags := fun i => by
    rw [← hq, record_proc]
    refine modProc_congr s dst Proc.pRtsFlags ?_ i
    rfl
  have hflag : ∀ i f, q.rtsIsset i f = s.rtsIsset i f := fun i f => by
    rw [rtsIsset, hflags]
    rfl
  have halive : ∀ i, q.Alive i ↔ s.Alive i := fun i => by rw [Alive, Alive, hflag]
  have hptr : q.procPtr = s.procPtr := by rw [← hq]; rfl
  have hfull : ∀ i, q.mfIsset i mfDelivermsg = if i = dst then true else s.mfIsset i mfDelivermsg := by
    intro i
    rw [← hq]
    simp only [mfIsset, record_proc, modProc_proc]
    split
    · exact isSet_or_self _ _
    · rfl
  have hmsg : ∀ i, (q.proc i).pDelivermsg =
      if i = dst then { m with mSource := ep } else (s.proc i).pDelivermsg := by
    intro i
    rw [← hq]
    simp only [record_proc, modProc_proc]
    split <;> rfl
  have hlinks : q.callerLinks = s.callerLinks := by
    have hcall := s.callerLinks_queueMess ep (some m) dst
    rw [queueMess_some, hq] at hcall
    exact hcall
  have hqueued : ∀ i, queuedTo q.log i =
      if i = dst then { m with mSource := ep } :: queuedTo s.log i else queuedTo s.log i := by
    intro i
    rw [← hq]
    rfl
  have hcopied : copiedTo q.log = copiedTo s.log := by
    rw [← hq]
    rfl
  have hcur : q.Alive q.procPtr := by
    rw [hptr, halive]
    exact h.current
  have hidle := (halive _).mpr h.idle
  refine ⟨⟨fun i hi => ?_, fun i => ?_⟩, hs.free (h.free.of_flags hflags) hcur hidle,
    hs.current hcur hidle, (hs.alive _).mpr hidle, fun r x hx => ?_, fun i hi => ?_⟩
  · by_cases hid : i = dst
    · rw [hid]
      exact hrecv
    · rw [hs.slot, hfull, if_neg hid] at hi
      by_contra hset
      have hset' := hs.receiving i (by rw [hfull, if_neg hid]; exact hi) (by simpa using hset)
      rw [hflag, h.receiving i hi] at hset'
      simp at hset'
  · rw [hs.queued, hs.copied, inSlot, hs.slot, hs.message, hqueued, hcopied, hfull, hmsg, h.copied i,
      inSlot]
    by_cases hid : i = dst
    · subst hid
      simp [hslot]
    · simp [hid]
  · rw [hs.alive, halive]
    rcases hs.links r x hx with ⟨r', hr'⟩ | hx'
    · exact h.links r' x (hlinks ▸ hr')
    · exact (halive x).mp hx'
  · rw [hs.alive, halive]
    rw [hs.slot, hfull] at hi
    split_ifs at hi with hid
    · rw [hid]
      exact hlive
    · exact h.live i hi

/-- The message is copied out of the slot. -/
theorem SlotInv.copyOut (h : s.SlotInv) (hslot : s.mfIsset rp mfDelivermsg = true) :
    ((s.modProc rp fun p => p.setMisc (clearBits p.pMiscFlags mfDelivermsg)).record
      (.copied rp (s.proc rp).pDelivermsg)).SlotInv := by
  generalize hq : (s.modProc rp fun p => p.setMisc (clearBits p.pMiscFlags mfDelivermsg)).record
      (.copied rp (s.proc rp).pDelivermsg) = q
  have hflags : ∀ i, (q.proc i).pRtsFlags = (s.proc i).pRtsFlags := fun i => by
    rw [← hq, record_proc]
    refine modProc_congr s rp Proc.pRtsFlags ?_ i
    rfl
  have hflag : ∀ i f, q.rtsIsset i f = s.rtsIsset i f := fun i f => by
    rw [rtsIsset, hflags]
    rfl
  have halive : ∀ i, q.Alive i ↔ s.Alive i := fun i => by rw [Alive, Alive, hflag]
  have hfull : ∀ i, q.mfIsset i mfDelivermsg = if i = rp then false else s.mfIsset i mfDelivermsg := by
    intro i
    rw [← hq]
    simp only [mfIsset, record_proc, modProc_proc]
    split
    · exact isSet_clearBits_self (by decide)
    · rfl
  have hmsg : ∀ i, (q.proc i).pDelivermsg = (s.proc i).pDelivermsg := fun i => by
    rw [← hq, record_proc]
    refine modProc_congr s rp Proc.pDelivermsg ?_ i
    rfl
  have hlinks : q.callerLinks = s.callerLinks := by
    have hhead := modProc_congr s rp (f := fun p => p.setMisc (clearBits p.pMiscFlags mfDelivermsg))
      Proc.pCallerQ rfl
    have hnext := modProc_congr s rp (f := fun p => p.setMisc (clearBits p.pMiscFlags mfDelivermsg))
      Proc.pQLink rfl
    rw [← hq]
    simp only [callerLinks, record_proc, hhead, hnext]
  have hqueued : queuedTo q.log = queuedTo s.log := by
    rw [← hq]
    rfl
  have hcopied : ∀ i, copiedTo q.log i =
      if i = rp then (s.proc rp).pDelivermsg :: copiedTo s.log i else copiedTo s.log i := by
    intro i
    rw [← hq]
    rfl
  have hof : ∀ i, q.mfIsset i mfDelivermsg = true → s.mfIsset i mfDelivermsg = true := by
    intro i hi
    rw [hfull] at hi
    split at hi
    · simp at hi
    · exact hi
  refine ⟨⟨fun i hi => ?_, fun i => ?_⟩, h.free.of_flags hflags, ?_, (halive _).mpr h.idle,
    fun r x hx => ?_, fun i hi => (halive i).mpr (h.live i (hof i hi))⟩
  · rw [hflag]
    exact h.receiving i (hof i hi)
  · rw [hqueued, hcopied, inSlot, hfull, hmsg, h.copied i, inSlot]
    by_cases hid : i = rp
    · subst hid
      simp [hslot]
    · simp [hid]
  · have hptr : q.procPtr = s.procPtr := by
      rw [← hq]
      rfl
    rw [hptr, halive]
    exact h.current
  · rw [halive]
    exact h.links r x (hlinks ▸ hx)

theorem SlotInv.blockSender (h : s.SlotInv) (hlive : s.Alive caller) {dst : Slot}
    {dstE : Int} {msg : Message} : (s.blockSender caller dst dstE msg).SlotInv := by
  have hmark : SameSlots s (s.markSending caller dstE msg) := by
    unfold markSending
    have hmsg := SameSlots.modOther s caller (f := fun p => { p with pSendmsg := msg })
      (fun _ => ⟨rfl, rfl, rfl⟩) fun _ => ⟨rfl, rfl⟩
    refine (hmsg.trans (.rtsSet _ ((hmsg.alive caller).mpr hlive) (f := rtsSending) (by decide))).trans ?_
    exact .modOther _ caller (fun _ => ⟨rfl, rfl, rfl⟩) fun _ => ⟨rfl, rfl⟩
  have hcaller := (hmark.alive caller).mpr hlive
  refine h.same (hmark.trans ?_)
  unfold State.blockSender
  dsimp only
  split
  · exact .quiet rfl
  · refine SameSlots.trans ?_ (.record _ rfl rfl)
    refine (SameSlots.setCallerLink _ fun x hx => ?_).trans (.setCallerLink _ fun x hx => ?_)
    · cases hx
      exact .inr hcaller
    · simp at hx

/-- The caller begins to receive; its slot is empty. -/
theorem sameSlots_receivingState (hslot : s.mfIsset caller mfDelivermsg = false)
    (hlive : s.Alive caller) {srcE : Int} :
    SameSlots s ((s.modProc caller fun p => { p with pGetfromE := srcE }).rtsSet caller
      rtsReceiving) := by
  have hfrom := SameSlots.modOther s caller (f := fun p => { p with pGetfromE := srcE })
    (fun _ => ⟨rfl, rfl, rfl⟩) fun _ => ⟨rfl, rfl⟩
  generalize s.modProc caller (fun p => { p with pGetfromE := srcE }) = t at hfrom ⊢
  refine hfrom.trans (.of_unsched (t.unsched_rtsSet caller rtsReceiving)
    (fun i => t.rtsIsset_rtsSet_of_disjoint caller i (by decide)) (fun i hi hr => ?_)
    fun hfr _ => hfr.rtsSet ((hfrom.alive caller).mpr hlive) (by decide))
  rw [rtsIsset_rtsSet_eq] at hr
  split_ifs at hr with hic
  · rw [hic, hfrom.slot, hslot] at hi
    simp at hi
  · exact hr

theorem SlotInv.light (h : s.SlotInv) (hlight : Light slotMode s s') : s'.SlotInv := by
  cases hlight with
  | quiet h' => exact h.same (.quiet h')
  | set rp hf hd hlive =>
    exact h.same (.rtsSet s (hlive.resolve_left id) (disjoint_of_isSet (by decide) hd))
  | unset rp hd => exact h.same (.rtsUnset s (disjoint_of_isSet (by decide) hd))
  | pend rp sigs _ => exact h.same (.modPending s rp _)
  | @signal rp sigs _ hlive =>
    have hpend := SameSlots.modPending s rp (fun p => p.pPending ||| sigs)
    exact h.same (hpend.trans (.rtsSet _ ((hpend.alive rp).mpr (hlive.resolve_left id))
      (by decide)))
  | endksig rp _ _ => exact h.same (.rtsUnset s (by decide))
  | deliver src dst m hwill =>
    have hrecv : s.rtsIsset dst rtsReceiving = true := by
      simp only [willReceive, Bool.and_eq_true] at hwill
      exact hwill.1.1
    have hslot : s.mfIsset dst mfDelivermsg = false := by
      by_contra hfull
      have hnot := h.receiving dst (by simpa using hfull)
      cases hnot.symm.trans hrecv
    refine h.filled hslot (h.free.alive hrecv (by decide)) (.rtsUnset _ (by decide)) ?_
    exact rtsIsset_rtsUnset_self _ dst (by decide)

theorem SlotInv.step (h : s.SlotInv) (hstep : Step slotMode s s') : s'.SlotInv := by
  cases hstep with
  | light hl => exact h.light hl
  | getksig rp _ => exact h.same ((SameSlots.modPending s rp _).trans (.rtsUnset _ (by decide)))
  | fill ep m hcan =>
    exact h.filled (hcan.slot.resolve_left id) hcan.alive .refl
      ((s.rtsIsset_queueMess _ _).trans hcan.receiving)
  | copyOut rp hslot => exact h.copyOut hslot
  | discard rp hdiscards _ => exact absurd hdiscards id
  | @blockSend caller dst dstE msg hmay => exact h.blockSender hmay.can.alive
  | @blockRecv caller srcE src hmay =>
    exact h.same (sameSlots_receivingState (hmay.slot.resolve_left id) hmay.alive)
  | @take caller src wanted xpp _ _ _ _ hget =>
    refine h.same (((SameSlots.rtsUnset s (by decide)).trans
      (.setCallerLink _ fun x hx => .inl ⟨.next src, hx⟩)).trans (.record _ rfl rfl))
  | stopRecv rp => exact h.same (.rtsUnset s (by decide))
  | die rc _ hlive =>
    exact h.same ((SameSlots.rtsSet s (hlive.resolve_left id) (by decide)).trans
      (.record _ rfl rfl))
  | @withdraw rc target xpp _ _ _ _ _ =>
    have hunlink : SameSlots s (s.unlinkSender rc xpp) := by
      unfold unlinkSender
      split
      · exact .refl
      · exact .setCallerLink s fun x hx => .inl ⟨.next rc, hx⟩
    exact h.same ((hunlink.trans (.clear _ (by decide))).trans (.record _ rfl rfl))
  | endRecv _ _ => exact h.same (.clear s (by decide))
  | orphan _ _ _ _ => exact h.same ((SameSlots.rtsUnset s (by decide)).trans (.record _ rfl rfl))

theorem slotInv_opInv : OpInv slotMode SlotInv :=
  ⟨fun h hs => h.step hs, fun h hs => h.same (.house hs), .inr fun h => ⟨h.free, fun _ _ _ hget => h.links _ _ hget⟩⟩

theorem FreeExact.fork (h : s.FreeExact) {parentE slot : Int} {rpp rpc : Slot}
    (hf : s.Forks parentE slot rpp rpc) {env : ForkEnv} :
    (s.doFork parentE slot env).2.FreeExact := by
  intro i hi
  rw [fork_alive env hf] at hi
  split_ifs at hi with hic
  · exact nomatch (h.alive hf.receiving (by decide)).symm.trans hi
  · rw [fork_others env hf Proc.pRtsFlags (fun _ _ => rfl) hic]
    exact h i hi

/-- The child of a fork has no message in its slot: its parent is receiving. -/
theorem SlotInv.fork (h : s.SlotInv) {parentE slot : Int} {rpp rpc : Slot}
    (hf : s.Forks parentE slot rpp rpc) {env : ForkEnv} :
    (s.doFork parentE slot env).2.SlotInv := by
  have hlive : s.Alive rpp := h.free.alive hf.receiving (by decide)
  have hfree : s.rtsIsset rpc rtsSlotFree = true := by
    have hflags : (s.proc rpc).pRtsFlags = rtsSlotFree := by simpa [isemptyp] using hf.free
    rw [rtsIsset, hflags]
    decide
  have halive : ∀ i, s.Alive i → (s.doFork parentE slot env).2.Alive i := by
    intro i hi
    rw [Alive, fork_alive env hf]
    split
    · exact hlive
    · exact hi
  have hslot : ∀ i, (s.doFork parentE slot env).2.mfIsset i mfDelivermsg =
      s.mfIsset i mfDelivermsg := by
    intro i
    by_cases hi : i = rpc
    · have hparent : s.mfIsset rpp mfDelivermsg = false := by
        by_contra hset
        have hnot := h.receiving rpp (by simpa using hset)
        cases hnot.symm.trans hf.receiving
      have hchild : s.mfIsset rpc mfDelivermsg = false := by
        by_contra hset
        have hnot := h.live rpc (by simpa using hset)
        cases hnot.symm.trans hfree
      rw [hi, hchild, mfIsset, fork_child env hf]
      exact (isSet_clearBits_of_disjoint (by decide)).trans hparent
    · exact fork_others env hf (fun p => isSet p.pMiscFlags mfDelivermsg) (fun _ _ => rfl) hi
  have hnotchild : ∀ i, s.mfIsset i mfDelivermsg = true → i ≠ rpc := by
    rintro i hi rfl
    cases (h.live i hi).symm.trans hfree
  have hlog : (s.doFork parentE slot env).2.log = s.log := by
    rw [doFork_eq hf]
    rfl
  have hptr : (s.doFork parentE slot env).2.procPtr = s.procPtr := by
    rw [doFork_eq hf]
    rfl
  refine ⟨⟨fun i hi => ?_, fun i => ?_⟩, h.free.fork hf, ?_, halive _ h.idle, fun r x hx => ?_,
    fun i hi => ?_⟩
  · rw [hslot] at hi
    have hother := fork_others env hf (fun p => isSet p.pRtsFlags rtsReceiving) (fun _ _ => rfl)
      (hnotchild i hi)
    exact hother.trans (h.receiving i hi)
  · rw [hlog, h.copied i, inSlot, inSlot, hslot]
    split_ifs with hi
    · rw [fork_others env hf Proc.pDelivermsg (fun _ _ => rfl) (hnotchild i hi)]
    · rfl
  · rw [hptr]
    exact halive _ h.current
  · -- the links of the child are the parent's
    have hcell : ∃ r', s.callerLinks.get r' = some x := by
      cases r with
      | head d =>
        by_cases hd : d = rpc
        · refine ⟨.head rpp, ?_⟩
          rw [hd] at hx
          simp only [callerLinks, Links.get_head, fork_child env hf] at hx ⊢
          exact hx
        · exact ⟨.head d, (fork_others env hf Proc.pCallerQ (fun _ _ => rfl) hd).symm.trans hx⟩
      | next y =>
        by_cases hy : y = rpc
        · refine ⟨.next rpp, ?_⟩
          rw [hy] at hx
          simp only [callerLinks, Links.get_next, fork_child env hf] at hx ⊢
          exact hx
        · refine ⟨.next y, ?_⟩
          simp only [callerLinks, Links.get_next,
            fork_others env hf Proc.pQLink (fun _ _ => rfl) hy] at hx ⊢
          exact hx
    obtain ⟨r', hr'⟩ := hcell
    exact halive x (h.links r' x hr')
  · exact halive i (h.live i ((hslot i).symm.trans hi))

end State

/-! ## Runs -/

theorem Op.Regular.kernelRun {μ : Mode} {op : Op} (h : op.Regular μ s) : KernelRun s op := by
  cases op with
  | rtsSet rp f => exact h.1
  | rtsSetflags rp f => exact absurd h id
  | trap t => exact h.1
  | lockSend dstE m => exact h.1
  | delivermsg rp mapped => exact h.1
  | _ => trivial

/-- A run of calls, deliveries, deaths, new programs and forks, and of all else that the
kernel does for its processes, in which no write to a message table fails and no program is
replaced while a message waits for it.  A process traps only when its slot is empty: it does
not run before `schedcheck` has delivered its message. -/
def SlotRun (s : State) : Op → Prop
  | .request _ (.fork _ _ _) => True
  | op => op.Regular slotMode s

/-- A state in which no message waits, with a sound table. -/
structure State.EmptySlots (s : State) : Prop where
  free : s.FreeExact
  current : s.Alive s.procPtr
  idle : s.Alive idleSlot
  links : ∀ r x, s.callerLinks.get r = some x → s.Alive x
  empty : ∀ i, s.mfIsset i mfDelivermsg = false
  log : s.log = []
  ready : ReadyInv s

theorem State.EmptySlots.slotInv (h : s.EmptySlots) : s.SlotInv := by
  have hno : ∀ i, ¬ s.mfIsset i mfDelivermsg = true := fun i hi =>
    nomatch (h.empty i).symm.trans hi
  refine ⟨⟨fun i hi => absurd hi (hno i), fun i => ?_⟩, h.free, h.current, h.idle, h.links,
    fun i hi => absurd hi (hno i)⟩
  rw [h.log, inSlot, h.empty]
  rfl

theorem State.SlotInv.op (h : s.SlotInv) (hready : ReadyInv s) {op : Op}
    (hop : SlotRun s op) : (op.run s).SlotInv := by
  cases op with
  | request caller call =>
    cases call with
    | fork parentE slot env =>
      have hcaller : ({ s with whoP := caller } : State).SlotInv := h.same (.quiet rfl)
      simp only [Op.run, KernelCall.run]
      generalize ({ s with whoP := caller } : State) = t at hcaller ⊢
      rcases doFork_cases (s := t) env parentE slot with heq | heq | ⟨rpp, rpc, hf⟩
      · rw [heq]
        exact hcaller
      · rw [heq]
        exact hcaller.same (.quiet rfl)
      · exact hcaller.fork hf
    | _ => exact slotInv_opInv.op h hready hop
  | _ => exact slotInv_opInv.op h hready hop

theorem SlotRun.kernelRun {op : Op} (h : SlotRun s op) : KernelRun s op := by
  cases op with
  | request caller call => trivial
  | _ => exact Op.Regular.kernelRun (μ := slotMode) h

/-- The loop at `check_misc_flags` does not break while a message waits for the process. -/
theorem State.workOff_slot_empty (s : State) {mapped : Bool} {deferred : Trap}
    (hdone : (s.workOff mapped deferred).1 = true) :
    (s.workOff mapped deferred).2.mfIsset (s.workOff mapped deferred).2.procPtr mfDelivermsg =
      false := by
  obtain ⟨hslot, heq | heq⟩ := workOff_break hdone
  · rw [heq]
    exact hslot
  · rw [heq]
    have hkeep := s.modProc_congr s.procPtr (fun p => isSet p.pMiscFlags mfDelivermsg)
      (f := fun p => p.setMisc (clearBits p.pMiscFlags mfScActive))
      (isSet_clearBits_of_disjoint (by decide)) s.procPtr
    exact hkeep.trans hslot

/-- The process that `schedcheck` lets run has no message in its slot. -/
theorem State.schedcheck_slot_empty (env : SchedEnv) (fuel : Nat)
    (hrp : (s.schedcheck env fuel).1 = some rp) :
    (s.schedcheck env fuel).2.mfIsset rp mfDelivermsg = false := by
  have hidle : ∀ t : State, True → (t.proc t.procPtr).pMiscFlags &&& mfWork = 0#16 →
      t.mfIsset t.procPtr mfDelivermsg = false := by
    intro t _ hnone
    by_contra hset
    exact absurd (disjoint_of_isSet (by simpa [mfIsset] using hset) hnone) (by decide)
  obtain ⟨hempty, hptr⟩ := schedcheck_returns (P := fun _ => True)
    (Q := fun t => t.mfIsset t.procPtr mfDelivermsg = false) (fun _ _ _ _ => trivial)
    (fun _ _ _ _ => trivial) hidle (fun t n _ hdone => t.workOff_slot_empty hdone)
    (fun _ => trivial) (fun _ => trivial) hrp
  rwa [hptr] at hempty

/-- In such a run no message is overwritten in its slot, and each is copied out once. -/
theorem deliverySlots_exact {s₀ s : State} (hstart : s₀.EmptySlots) (hrun : Reaches SlotRun s₀ s) :
    s.SlotsExact := by
  have hinv := hrun.invariant (fun t => t.SlotInv ∧ ReadyInv t) ⟨hstart.slotInv, hstart.ready⟩
    fun t op ht hop => ⟨ht.1.op ht.2 hop, ht.2.op op hop.kernelRun⟩
  exact hinv.1.toSlotsExact

/-- The kernel starts with all delivery slots empty. -/
theorem State.emptySlots_boot : boot.EmptySlots where
  free := unblocked_boot.free
  current := unblocked_boot.current
  idle := by
    decide +kernel
  links r x hx := by
    have hhead : ∀ d, (boot.proc d).pCallerQ = none := by decide +kernel
    have hnext : ∀ d, (boot.proc d).pQLink = none := by decide +kernel
    cases r with
    | head d =>
      simp only [callerLinks, Links.get_head, hhead] at hx
      simp at hx
    | next d =>
      simp only [callerLinks, Links.get_next, hnext] at hx
      simp at hx
  empty := by decide +kernel
  log := unblocked_boot.log
  ready := ReadyInv.boot

/-- RS makes a request to SYSTEM, which takes it. -/
def requestOfRsOps : List Op :=
  [.dispatch rsSlot, .trap (sendrecTo (-2)), .dispatch systemSlot, .trap (receiveFrom endptAny),
    .delivermsg systemSlot true]

theorem deliverySlots_exact_request : (runOps boot requestOfRsOps).SlotsExact ∧
    (copiedTo (runOps boot requestOfRsOps).log systemSlot).length = 1 := by
  have hgood : NoTear fun _ _ _ => .done := fun _ _ => ⟨rfl, rfl⟩
  have hrun : AllowedRun SlotRun boot requestOfRsOps := by
    refine ⟨show procIsRunnable _ _ = true from ?_, ⟨?_, .inr ⟨?_, hgood⟩, .inl trivial⟩,
      show procIsRunnable _ _ = true from ?_, ⟨?_, .inr ⟨?_, hgood⟩, .inl trivial⟩,
      ⟨?_, .inr (show rtsIsset _ _ _ = false from ?_)⟩, trivial⟩
    all_goals decide +kernel
  exact ⟨deliverySlots_exact emptySlots_boot (reaches_runOps hrun), by decide +kernel⟩

/-- An asynchronous message for VFS. -/
def entryForVfs : AsynMsg := ⟨amfValid, 1, 0, zeroMessage⟩

/-- A receive from anyone, while the pages of message tables cannot be written. -/
def receiveTorn : Trap :=
  { receiveFrom endptAny with
    env := fun _ _ field => if field = .putResult then .unmapped else .done }

/-- PM has sent an asynchronous message to VFS, from a table in a page that is shared since
a fork and so cannot be written.  VFS takes the message and still blocks, and a second
message, by SEND, overwrites the first. -/
def tornTableOps : List Op :=
  [.request rsSlot (.privctl 0 (.setSys none)), .request rsSlot (.privctl 0 .allow),
    .request rsSlot (.privctl 1 (.setSys none)), .request rsSlot (.privctl 1 .allow),
    .store pmSlot 0x1000 entryForVfs, .dispatch pmSlot,
    .trap ⟨callSenda, 1, ⟨0x1000, 0x1000, none⟩, fun _ _ _ => .done⟩,
    .dispatch vfsSlot, .trap receiveTorn]

/-- After it has taken the message VFS waits for another one, and is sent one. -/
def overwrittenOps : List Op :=
  tornTableOps ++ [.dispatch pmSlot, .trap { sendrecTo 1 with callNr := callSend }]

/-- A program is replaced while a message waits for it. -/
def discardedOps : List Op :=
  [.dispatch rsSlot, .trap (sendrecTo (-2)), .dispatch systemSlot, .trap (receiveFrom endptAny),
    .request systemSlot (.exec (-2))]

/-- A process has a message in its slot and waits for another one, which overwrites the
first; and a message that waits for a program is not copied out if the program is replaced. -/
theorem deliverySlot_overwritten :
    Reachable KernelRun (runOps (bootWith 0) tornTableOps) ∧
      (runOps (bootWith 0) tornTableOps).mfIsset vfsSlot mfDelivermsg = true ∧
      (runOps (bootWith 0) tornTableOps).rtsIsset vfsSlot rtsReceiving = true ∧
      Reachable KernelRun (runOps (bootWith 0) overwrittenOps) ∧
      (queuedTo (runOps (bootWith 0) overwrittenOps).log vfsSlot).length = 2 ∧
      copiedTo (runOps (bootWith 0) overwrittenOps).log vfsSlot = [] ∧
      Reachable KernelRun (runOps (bootWith 0) discardedOps) ∧
      (queuedTo (runOps (bootWith 0) discardedOps).log systemSlot).length = 1 ∧
      (runOps (bootWith 0) discardedOps).inSlot systemSlot = [] ∧
      copiedTo (runOps (bootWith 0) discardedOps).log systemSlot = [] := by
  refine ⟨⟨0, reaches_runOps ?_⟩, ?_, ?_, ⟨0, reaches_runOps ?_⟩, ?_, ?_, ⟨0, reaches_runOps ?_⟩,
    ?_, ?_, ?_⟩
  all_goals decide +kernel

end Minix.Kernel
